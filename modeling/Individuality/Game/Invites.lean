import Individuality.Airdrop.Draw
import Individuality.Game.Calls

/-! Signing up with an invite.

An inviter leaves a ticket in storage; whoever signs with the ticket may play a game without a
deposit and without fees. The transaction extension `GameAsInvited` checks all that the sign-up
needs ahead of it, takes the invite, and turns the signer into an invited origin. The airdrop is
tried in a storage layer that is rolled back, ahead of the onboarding; the sign-up tries it again
behind. -/
namespace Individuality.Game
open Support
open Score (Alias AccountOrPerson)

/-- Why the extension turns a transaction down. -/
inductive CustomError
  | originNotSigned
  | callNotSignUpWithInvite
  | notNewPlayer
  | noGame
  | gameRegistrationEnded
  | gameNotInRegistration
  | accountAlreadyUsedForStmtAccount
  | cannotOnboardAlreadyOnboarded
  | noPendingInvite
  | invalidSignature
  | invalidAirdropVrfVariant
  | invalidAirdropRegistration
  deriving DecidableEq, Repr

def CustomError.code : CustomError → Nat
  | .originNotSigned => 140
  | .callNotSignUpWithInvite => 141
  | .notNewPlayer => 142
  | .noGame => 143
  | .gameRegistrationEnded => 144
  | .gameNotInRegistration => 145
  | .accountAlreadyUsedForStmtAccount => 146
  | .cannotOnboardAlreadyOnboarded => 147
  | .noPendingInvite => 148
  | .invalidSignature => 149
  | .invalidAirdropVrfVariant => 150
  | .invalidAirdropRegistration => 151

inductive InvalidTransaction
  | custom (code : Nat)
  | payment
  | stale
  | future
  deriving DecidableEq, Repr

/-- The system's accounts, and the tickets. -/
structure InviteConfig (T : Config) where
  Ticket : Type
  TicketSignature : Type
  ticketDecEq : DecidableEq Ticket
  /-- Whether a signature is the ticket's over an account. -/
  verify : TicketSignature → T.AccountId → Ticket → Bool
  nonce : T.World → T.AccountId → Nat
  validateNonceForAccount : T.World → T.AccountId → Nat → Except InvalidTransaction Unit
  prepareNonceForAccount : T.World → T.AccountId → Nat → Except InvalidTransaction T.World

instance {T : Config} {I : InviteConfig T} : DecidableEq I.Ticket := I.ticketDecEq

variable {T : Config}

/-- The same participations in an airdrop pass. -/
structure SameAirdrop {A W : Type} (services : Services A W) (w w' : W) : Prop where
  withAccount : ∀ gameIndex who signature, (services.participateWithAccount w gameIndex who signature).isSome =
    (services.participateWithAccount w' gameIndex who signature).isSome
  withAlias : ∀ gameIndex who proof ringIndex revision,
    (services.participateWithAlias w gameIndex who proof ringIndex revision).isSome =
      (services.participateWithAlias w' gameIndex who proof ringIndex revision).isSome

/-- What the system promises of the nonces: a stale one is turned down at once, one ahead of the
account's when the transaction is prepared. The accounts are apart from the airdrop. -/
structure LawfulInvites (I : InviteConfig T) : Prop where
  nonce_incSufficients : ∀ w who, I.nonce (T.services.incSufficients w who) who = I.nonce w who
  validate_stale : ∀ {w who nonce}, nonce < I.nonce w who → I.validateNonceForAccount w who nonce ≠ .ok ()
  prepare_current : ∀ w who, ∃ w', I.prepareNonceForAccount w who (I.nonce w who) = .ok w'
  prepare_future : ∀ {w who nonce}, I.nonce w who < nonce →
    I.prepareNonceForAccount w who nonce = .error .future
  airdrop_incSufficients : ∀ w who, SameAirdrop T.services w (T.services.incSufficients w who)
  airdrop_prepare : ∀ {w who nonce w'}, I.prepareNonceForAccount w who nonce = .ok w' → SameAirdrop T.services w w'

structure Invitations (I : InviteConfig T) where
  store : Store T
  pendingInvites : StorageMap (T.AccountId × I.Ticket) Unit

inductive Origin (T : Config)
  | signed (who : T.AccountId)
  | invited (who : T.AccountId)
  | other

inductive ExtrinsicCall (T : Config)
  | signUpWithInvite (airdrop : Option (Airdrop T))
  | other

structure GameAsInvited (I : InviteConfig T) where
  nonce : Nat
  inviter : T.AccountId
  ticket : I.Ticket
  signature : I.TicketSignature

inductive DispatchError
  | badOrigin
  | game (error : Error)
  deriving DecidableEq, Repr

namespace Store
variable (s : Store T)

/-- The participation is tried in a storage layer, which never fails itself, and what it writes is rolled
back. -/
def validateRegisterForAirdrop (airdrop : Option (Airdrop T)) (who : T.PlayerId) (gameIndex : Nat)
    (airdropScheduled : Bool) : Except CustomError Unit :=
  match airdropScheduled, airdrop with
  | true, some vrf => do
    -- A participant that is not there will be onboarded as not recognized.
    let recognized := (s.score.participants.get who).any fun p => p.recognition.isRecognized
    match vrf, who with
    | .alias proof ringIndex revision, who =>
      ensure (recognized = true) .invalidAirdropVrfVariant
      ensure ((T.services.participateWithAlias s.world gameIndex who proof ringIndex revision).isSome = true)
        .invalidAirdropRegistration
    | .account signature, .account account =>
      ensure (recognized = false) .invalidAirdropVrfVariant
      ensure ((T.services.participateWithAccount s.world gameIndex account signature).isSome = true)
        .invalidAirdropRegistration
    | .account _, .person _ => .error .invalidAirdropVrfVariant
  | _, _ => .ok ()

end Store

namespace Invitations
variable {I : InviteConfig T} (env : Env T) (c : Invitations I)

def custom (e : CustomError) : InvalidTransaction := .custom e.code

/-- What the sign-up checks again, ahead of it; also the game. -/
def validateSignUp (who : T.AccountId) : Except CustomError (GameInfo T.PlayerId) := do
  ensure (c.store.players.contains (.account who) = false) .notNewPlayer
  let game ← okOr c.store.game .noGame
  ensure (env.now < Duration.fromSecs game.registrationEnds) .gameRegistrationEnded
  ensure (game.state.isRegistration = true) .gameNotInRegistration
  ensure (c.store.stmtAccountToAlias.contains who = false) .accountAlreadyUsedForStmtAccount
  ensure (c.store.archivedPlayers.contains (.account who) = true ∨
    c.store.score.participants.contains (.account who) = false) .cannotOnboardAlreadyOnboarded
  .ok game

/-- The account is kept alive while the transaction is in its block, for its nonce. -/
def keepAlive (who : T.AccountId) : Invitations I :=
  { c with store := { c.store with world := T.services.incSufficients c.store.world who } }

/-- What is checked ahead of the call; also the origin of the call, and what was written. -/
def validate (data : GameAsInvited I) (origin : Origin T) (call : ExtrinsicCall T) :
    Except InvalidTransaction (Invitations I × T.AccountId × Origin T) :=
  match origin, call with
  | .signed who, .signUpWithInvite airdrop => do
    let game ← (c.validateSignUp env who).mapError custom
    ensure (c.pendingInvites.contains (data.inviter, data.ticket) = true) (custom .noPendingInvite)
    ensure (I.verify data.signature who data.ticket = true) (custom .invalidSignature)
    let c := c.keepAlive who
    (c.store.validateRegisterForAirdrop airdrop (.account who) game.index game.airdropScheduled).mapError
      custom
    I.validateNonceForAccount c.store.world who data.nonce
    .ok (c, who, .invited who)
  | .signed _, .other => .error (custom .callNotSignUpWithInvite)
  | _, _ => .error (custom .originNotSigned)

/-- The invite is taken, whether or not the call succeeds then. -/
def prepare (data : GameAsInvited I) (who : T.AccountId) : Except InvalidTransaction (Invitations I) := do
  let world ← I.prepareNonceForAccount c.store.world who data.nonce
  .ok { store := { c.store with world := world },
        pendingInvites := c.pendingInvites.remove (data.inviter, data.ticket) }

def dispatch (origin : Origin T) (call : ExtrinsicCall T) : Except DispatchError (Invitations I) :=
  match origin, call with
  | .invited who, .signUpWithInvite airdrop =>
    match c.store.signUp env (.account who true airdrop) with
    | .ok store => .ok { c with store := store }
    | .error e => .error (.game e)
  | _, _ => .error .badOrigin

/-- The account is kept alive by the sign-up from now on. -/
def postDispatch (who : T.AccountId) : Invitations I :=
  { c with store := { c.store with world := T.services.decSufficients c.store.world who } }

/-! ### What is accepted -/

variable {env} {c c₁ c₂ : Invitations I} {data : GameAsInvited I} {who : T.AccountId}
  {airdrop : Option (Airdrop T)} {game : GameInfo T.PlayerId}

/-- All that an accepted sign-up has been checked for, the airdrop apart. -/
structure Accepts (env : Env T) (s : Store T) (who : T.AccountId) (game : GameInfo T.PlayerId) : Prop where
  new : s.players.get (.account who) = none
  game_eq : s.game = some game
  registering : env.now < Duration.fromSecs game.registrationEnds
  registration : game.state.isRegistration = true
  unbound : s.stmtAccountToAlias.contains who = false
  onboards : s.archivedPlayers.get (.account who) = none → s.score.participants.get (.account who) = none

theorem accepts_of_validateSignUp (h : c.validateSignUp env who = .ok game) :
    Accepts env c.store who game := by
  simp only [validateSignUp, bind_eq_ok, ensure_eq_ok, okOr_eq_ok, exists_const, Except.ok.injEq] at h
  obtain ⟨hnew, _, hgame, hnow, hregistration, hunbound, honboards, rfl⟩ := h
  refine ⟨StorageMap.contains_eq_false.mp hnew, hgame, hnow, hregistration, hunbound, ?_⟩
  intro harchived
  have hnone := StorageMap.contains_eq_false.mpr harchived
  rcases honboards with harchived | hscore
  · rw [harchived] at hnone
    cases hnone
  · exact StorageMap.contains_eq_false.mp hscore

/-- What `validate` accepts: a signed sign-up, with an invite, a try at the airdrop and a nonce. -/
theorem validate_eq_ok {origin : Origin T} {call : ExtrinsicCall T} {r : Invitations I × T.AccountId × Origin T}
    (h : c.validate env data origin call = .ok r) : ∃ who airdrop game, origin = .signed who ∧
      call = .signUpWithInvite airdrop ∧ r = (c.keepAlive who, who, .invited who) ∧
      Accepts env c.store who game ∧ c.pendingInvites.contains (data.inviter, data.ticket) = true ∧
      (c.keepAlive who).store.validateRegisterForAirdrop airdrop (.account who) game.index
        game.airdropScheduled = .ok () ∧
      I.validateNonceForAccount (c.keepAlive who).store.world who data.nonce = .ok () := by
  unfold validate at h
  split at h
  · rename_i who airdrop
    simp only [bind_eq_ok, ensure_eq_ok, mapError_eq_ok, exists_const, Except.ok.injEq] at h
    obtain ⟨game, hsign, hinvite, -, _, hairdrop, _, hnonce, rfl⟩ := h
    exact ⟨who, airdrop, game, rfl, rfl, rfl, accepts_of_validateSignUp hsign, hinvite, hairdrop, hnonce⟩
  · cases h
  · cases h

end Invitations

/-! ### The sign-up goes through -/

namespace SameAirdrop

variable {A W : Type} {services : Services A W} {w w' w'' : W}

theorem refl (w : W) : SameAirdrop services w w := ⟨fun _ _ _ => rfl, fun _ _ _ _ _ => rfl⟩

theorem trans (h : SameAirdrop services w w') (h' : SameAirdrop services w' w'') : SameAirdrop services w w'' :=
  ⟨fun _ _ _ => (h.withAccount _ _ _).trans (h'.withAccount _ _ _),
    fun _ _ _ _ _ => (h.withAlias _ _ _ _ _).trans (h'.withAlias _ _ _ _ _)⟩

end SameAirdrop

namespace Store
variable {env : Env T} {s s' : Store T} {who : T.AccountId} {airdrop : Option (Airdrop T)}
  {game : GameInfo T.PlayerId}

/-- Whether the score pallet has recognized a player. -/
def recognizes (s : Store T) (who : T.PlayerId) : Bool :=
  (s.score.participants.get who).any fun p => p.recognition.isRecognized

variable (s') in
/-- A participation that was tried passes wherever the player is recognized alike. -/
theorem exists_registerForAirdrop {player : T.PlayerId} {gameIndex : Nat} {scheduled : Bool}
    (h : s.validateRegisterForAirdrop airdrop player gameIndex scheduled = .ok ())
    (hrecognizes : s'.recognizes player = s.recognizes player) (hsame : SameAirdrop T.services s.world s'.world) :
    ∃ world, s'.registerForAirdrop airdrop player scheduled gameIndex = .ok { s' with world := world } := by
  unfold recognizes at hrecognizes
  unfold validateRegisterForAirdrop at h
  unfold registerForAirdrop
  cases scheduled with
  | false => exact ⟨s'.world, rfl⟩
  | true =>
    rcases airdrop with _ | signature | ⟨proof, ringIndex, revision⟩
    · exact ⟨s'.world, rfl⟩
    · cases player with
      | person id => cases h
      | account account =>
        simp only [bind_eq_ok, ensure_eq_ok, exists_const] at h
        obtain ⟨hrecognized, htried⟩ := h
        rw [hsame.withAccount] at htried
        obtain ⟨world, hworld⟩ := Option.isSome_iff_exists.mp htried
        refine ⟨world, ?_⟩
        simp only [hrecognizes, ensure_pos hrecognized, hworld, ok_bind, okOr_some]
    · simp only [bind_eq_ok, ensure_eq_ok, exists_const] at h
      obtain ⟨hrecognized, htried⟩ := h
      rw [hsame.withAlias] at htried
      obtain ⟨world, hworld⟩ := Option.isSome_iff_exists.mp htried
      refine ⟨world, ?_⟩
      simp only [hrecognizes, ensure_pos hrecognized, hworld, ok_bind, okOr_some]

/-- A participant that is new is onboarded as not recognized. -/
theorem exists_onboardForRecognition {A W : Type} [DecidableEq A] (services : Score.Services A W)
    {score : Score.Store A} (w : W) {who : A} (hnew : score.participants.get (.account who) = none) :
    ∃ score', score.onboardForRecognition services w who = .ok (score', services.incSufficients w who) ∧
      (score'.participants.get (.account who)).any (fun p => p.recognition.isRecognized) = false := by
  refine ⟨{ score with
    participants := score.participants.insert (.account who)
      ⟨0, 0, .attended 0, .initial, .notRecognized, false, false, false, none⟩ }, ?_, ?_⟩
  · simp only [Score.Store.onboardForRecognition, ensure_pos (StorageMap.contains_eq_false.mpr hnew), ok_bind]
  · simp [Score.Recognition.isRecognized]

/-- An archived player is a participant already; another one is onboarded, as not recognized. -/
theorem exists_onboardIfNew (archived : Option ArchivedPlayer)
    (hpart : ∀ w who, SameAirdrop T.services w (T.services.incSufficients w who))
    (honboards : archived = none → s.score.participants.get (.account who) = none) :
    ∃ s', s.onboardIfNew (.account who) (archived.isNone && true) = .ok s' ∧
      s'.recognizes (.account who) = s.recognizes (.account who) ∧ SameAirdrop T.services s.world s'.world := by
  cases archived with
  | some player => exact ⟨s, rfl, rfl, .refl _⟩
  | none =>
    have hnew := honboards rfl
    obtain ⟨score, honboard, hnot⟩ := exists_onboardForRecognition T.services.toServices s.world hnew
    refine ⟨{ s with score := score, world := T.services.incSufficients s.world who }, ?_, ?_, hpart _ _⟩
    · simp [onboardIfNew, onboard, honboard]
    · simp only [recognizes, hnot, hnew, Option.any_none]

/-- A sign-up with an invite passes in every state that was checked for it, once the accounts have
moved on. -/
theorem exists_signUp {w : T.World} (h : Invitations.Accepts env s who game)
    (hpart : ∀ w who, SameAirdrop T.services w (T.services.incSufficients w who))
    (hairdrop : { s with world := w }.validateRegisterForAirdrop airdrop (.account who) game.index
      game.airdropScheduled = .ok ())
    (hsame : SameAirdrop T.services w s.world) :
    ∃ s', s.signUp env (.account who true airdrop) = .ok s' ∧
      s'.players.get (.account who) = some (.fresh true game.index .invited) := by
  obtain ⟨n, hstate⟩ : ∃ n, game.state = .registration n := by
    have hregistration := h.registration
    cases hstate : game.state with
    | registration n => exact ⟨n, rfl⟩
    | _ =>
      rw [hstate] at hregistration
      cases hregistration
  obtain ⟨s₁, honboard, hrecognizes, hsame₁⟩ := exists_onboardIfNew
    (s := { s with archivedPlayers := s.archivedPlayers.remove (.account who) }) (s.archivedPlayers.get (.account who))
    hpart h.onboards
  obtain ⟨world, hregister⟩ := exists_registerForAirdrop
    (s₁.putPlayer (.account who) (.fresh true game.index .invited)) hairdrop hrecognizes
    (hsame.trans hsame₁)
  have hplay : s.players.get (.account who) = none := h.new
  refine ⟨({ s₁.putPlayer (.account who) (.fresh true game.index .invited) with
      world := world }.allowStatements (.account who) false).putGame
      { game with state := .registration (U32.saturatingInc n) }, ?_, by simp [putGame, allowStatements, putPlayer]⟩
  refine bind_eq_ok.mpr ⟨game, okOr_eq_ok.mpr h.game_eq, bind_eq_ok.mpr ⟨(), ensure_eq_ok.mpr h.registering, ?_⟩⟩
  simp only [hstate]
  have hresolve : s.resolveSignUp (.account who true airdrop) = .ok (s, .account who, true, airdrop) := by
    simp only [resolveSignUp, ensure_pos h.unbound, ok_bind]
  refine bind_eq_ok.mpr ⟨_, hresolve, ?_⟩
  simp only [hplay, Option.isNone_none, or_true, ensure_pos, Option.all_none, ok_bind]
  refine bind_eq_ok.mpr ⟨s₁, honboard, bind_eq_ok.mpr ⟨(s₁, game.index, .invited), rfl, ?_⟩⟩
  exact bind_eq_ok.mpr ⟨_, hregister, rfl⟩

end Store
namespace Invitations
variable {I : InviteConfig T} {env : Env T} {c c₁ c₂ : Invitations I} {data : GameAsInvited I}
  {who : T.AccountId} {origin invited : Origin T} {call : ExtrinsicCall T}

theorem prepare_eq_ok : c.prepare data who = .ok c₂ ↔
    ∃ world, I.prepareNonceForAccount c.store.world who data.nonce = .ok world ∧
      c₂ = ⟨{ c.store with world := world }, c.pendingInvites.remove (data.inviter, data.ticket)⟩ := by
  simp only [prepare, bind_eq_ok, Except.ok.injEq, eq_comm (a := c₂)]

theorem dispatch_invited {airdrop : Option (Airdrop T)} {s : Store T}
    (h : c.store.signUp env (.account who true airdrop) = .ok s) :
    c.dispatch env (.invited who) (.signUpWithInvite airdrop) = .ok { c with store := s } := by
  simp only [dispatch, h]

/-- Of a transaction that `validate` accepts, the invite is taken only if the player is registered with
it. The nonce alone may still stop it, where it is ahead of the account's, and the invite stays. -/
theorem invite_not_wasted (hlaws : LawfulInvites I)
    (h : c.validate env data origin call = .ok (c₁, who, invited)) :
    (data.nonce = I.nonce c.store.world who → ∃ c₂, c₁.prepare data who = .ok c₂) ∧
      (data.nonce ≠ I.nonce c.store.world who → I.nonce c.store.world who < data.nonce ∧
        c₁.prepare data who = .error .future) ∧
      ∀ c₂, c₁.prepare data who = .ok c₂ →
        c₂.pendingInvites = c.pendingInvites.remove (data.inviter, data.ticket) ∧
        ∃ game c₃, c.store.game = some game ∧ c₂.dispatch env invited call = .ok c₃ ∧
          (c₃.postDispatch who).store.players.get (.account who) = some (.fresh true game.index .invited) := by
  obtain ⟨who, airdrop, game, rfl, rfl, hr, haccepts, -, hairdrop, hnonce⟩ := validate_eq_ok h
  cases hr
  have hkept : I.nonce (c.keepAlive who).store.world who = I.nonce c.store.world who :=
    hlaws.nonce_incSufficients _ _
  refine ⟨fun hcurrent => ?_, fun hother => ?_, fun c₂ hprepare => ?_⟩
  · obtain ⟨world, hworld⟩ := hlaws.prepare_current (c.keepAlive who).store.world who
    rw [hkept, ← hcurrent] at hworld
    exact ⟨_, prepare_eq_ok.mpr ⟨world, hworld, rfl⟩⟩
  · have hahead : I.nonce c.store.world who < data.nonce := by
      by_contra hle
      exact hlaws.validate_stale (by omega) hnonce
    refine ⟨hahead, ?_⟩
    rw [prepare, hlaws.prepare_future (hkept ▸ hahead)]
    rfl
  · obtain ⟨world, hworld, rfl⟩ := prepare_eq_ok.mp hprepare
    have haccepts' : Accepts env { c.store with world := world } who game :=
      ⟨haccepts.new, haccepts.game_eq, haccepts.registering, haccepts.registration, haccepts.unbound,
        haccepts.onboards⟩
    obtain ⟨s₃, hsign, hplayer⟩ := Store.exists_signUp haccepts' hlaws.airdrop_incSufficients hairdrop
      (hlaws.airdrop_prepare hworld)
    exact ⟨rfl, game, _, haccepts.game_eq, dispatch_invited hsign, hplayer⟩

end Invitations
/-! ### With the airdrop pallet -/

structure AccountInfo where
  nonce : Nat
  /-- What keeps the account alive. -/
  references : Nat

/-- The system's accounts, the airdrop pallet, and the members that it asks for. -/
structure Chain (A : Airdrop.Config) where
  accounts : A.fungibles.AccountId → AccountInfo
  airdrop : Airdrop.Store A
  members : A.memberService.World

namespace Chain
variable {A : Airdrop.Config}

def mutateAccount (c : Chain A) (who : A.fungibles.AccountId) (f : AccountInfo → AccountInfo) : Chain A :=
  { c with accounts := Function.update c.accounts who (f (c.accounts who)) }

theorem nonce_mutateAccount (c : Chain A) (who : A.fungibles.AccountId) (f : AccountInfo → AccountInfo)
    (hf : ∀ i, (f i).nonce = i.nonce) : ((c.mutateAccount who f).accounts who).nonce = (c.accounts who).nonce := by
  have hself : (c.mutateAccount who f).accounts who = f (c.accounts who) := Function.update_self ..
  rw [hself, hf]

/-- Services of which the accounts and the participations are the chain's. -/
def services (base : Services A.fungibles.AccountId (Chain A)) (eventId : Nat → Airdrop.EventId)
    (entry : AccountOrPerson A.fungibles.AccountId → Airdrop.Entry A) :
    Services A.fungibles.AccountId (Chain A) :=
  { base with
    VrfSignature := A.VrfSignature
    Proof := A.memberService.Proof
    incSufficients := fun c who => c.mutateAccount who fun i => { i with references := i.references + 1 }
    decSufficients := fun c who => c.mutateAccount who fun i => { i with references := i.references - 1 }
    participateWithAccount := fun c gameIndex who signature =>
      (Airdrop.doParticipateWithAccount c.airdrop who (eventId gameIndex) signature).toOption.map
        fun airdrop => { c with airdrop := airdrop }
    participateWithAlias := fun c gameIndex who proof ringIndex revision =>
      (Airdrop.doParticipateWithAlias c.members c.airdrop (eventId gameIndex) (entry who) proof ringIndex
        revision).toOption.map fun airdrop => { c with airdrop := airdrop } }

/-- The airdrop pallet does not look at the accounts. -/
theorem sameAirdrop_mutateAccount (base : Services A.fungibles.AccountId (Chain A))
    (eventId : Nat → Airdrop.EventId) (entry : AccountOrPerson A.fungibles.AccountId → Airdrop.Entry A)
    (c : Chain A) (who : A.fungibles.AccountId) (f : AccountInfo → AccountInfo) :
    SameAirdrop (services base eventId entry) c (c.mutateAccount who f) :=
  ⟨fun _ _ _ => by simp only [services, Option.isSome_map]; rfl,
    fun _ _ _ _ _ => by simp only [services, Option.isSome_map]; rfl⟩

/-- An account without references has not paid for a nonce; one that is behind the account's is stale. -/
def validateNonceForAccount (c : Chain A) (who : A.fungibles.AccountId) (nonce : Nat) :
    Except InvalidTransaction Unit := do
  ensure ((c.accounts who).references ≠ 0) .payment
  ensure ((c.accounts who).nonce ≤ nonce) .stale

def prepareNonceForAccount (c : Chain A) (who : A.fungibles.AccountId) (nonce : Nat) :
    Except InvalidTransaction (Chain A) := do
  ensure (nonce ≤ (c.accounts who).nonce) .future
  .ok (c.mutateAccount who fun i => { i with nonce := nonce + 1 })

theorem validate_stale {c : Chain A} {who : A.fungibles.AccountId} {nonce : Nat}
    (h : nonce < (c.accounts who).nonce) : c.validateNonceForAccount who nonce ≠ .ok () := by
  intro hvalid
  simp only [validateNonceForAccount, bind_eq_ok, ensure_eq_ok] at hvalid
  omega

theorem prepare_current (c : Chain A) (who : A.fungibles.AccountId) :
    ∃ c', c.prepareNonceForAccount who (c.accounts who).nonce = .ok c' :=
  ⟨_, bind_eq_ok.mpr ⟨(), ensure_pos le_rfl _, rfl⟩⟩

theorem prepare_future {c : Chain A} {who : A.fungibles.AccountId} {nonce : Nat}
    (h : (c.accounts who).nonce < nonce) : c.prepareNonceForAccount who nonce = .error .future := by
  rw [prepareNonceForAccount, ensure, if_neg (Nat.not_le.mpr h)]
  rfl

theorem prepare_eq {c c' : Chain A} {who : A.fungibles.AccountId} {nonce : Nat}
    (h : c.prepareNonceForAccount who nonce = .ok c') :
    c' = c.mutateAccount who fun i => { i with nonce := nonce + 1 } := by
  simp only [prepareNonceForAccount, bind_eq_ok, Except.ok.injEq] at h
  obtain ⟨-, -, rfl⟩ := h
  rfl

end Chain

/-! ### An invited player -/

/-- Services that succeed and change nothing. -/
def stillServices (A W : Type) : Services A W where
  incSufficients w _ := w
  decSufficients w _ := w
  canStartPeopleSetMutationSession _ := true
  startPeopleSetMutationSession w := some w
  endPeopleSetMutationSession w := some w
  suspendPersonhood w _ := w
  activeCount _ := 0
  AccountSignature := Unit
  PlayDeposit := Unit
  VrfSignature := Unit
  Proof := Unit
  Prize := Unit
  verify _ _ _ := true
  newDeposit w _ _ := some ((), w)
  dropDeposit w _ _ := some w
  burnDeposit w _ _ := w
  increaseAllowance w _ := w
  decreaseAllowance w _ := w
  scheduleAirdrop w _ _ _ _ _ := some w
  cancelAirdrop w _ := w
  participateWithAccount w _ _ _ := some w
  participateWithAlias w _ _ _ _ _ := some w

abbrev SampleChain : Type := Chain Airdrop.sampleConfig

def sampleAirdropServices : Services Nat SampleChain :=
  Chain.services (A := Airdrop.sampleConfig) (stillServices Nat SampleChain)
    (fun _ => Airdrop.sampleActions.eventId 1)
    fun
      | .account account => .account account
      | .person _ => .ringAlias ((0 : Nat), Airdrop.sampleActions.eventId 1)

/-- The small game on a chain with the small airdrop. -/
def sampleInvited : Config :=
  { sampleConfig with World := SampleChain, services := sampleAirdropServices }

/-- The signature of a ticket over an account is the pair of them. -/
def sampleInvites : InviteConfig sampleInvited where
  Ticket := Nat
  TicketSignature := Nat × Nat
  ticketDecEq := inferInstance
  verify signature who ticket := signature.1 == (show Nat from who) && signature.2 == ticket
  nonce := fun (c : SampleChain) who => (c.accounts who).nonce
  validateNonceForAccount := fun (c : SampleChain) who nonce => c.validateNonceForAccount who nonce
  prepareNonceForAccount := fun (c : SampleChain) who nonce => c.prepareNonceForAccount who nonce

theorem sameAirdrop_sample (c : SampleChain) (who : Nat) (f : AccountInfo → AccountInfo) :
    SameAirdrop sampleAirdropServices c (c.mutateAccount who f) :=
  Chain.sameAirdrop_mutateAccount ..

theorem lawfulInvites_sample : LawfulInvites sampleInvites where
  nonce_incSufficients := fun (c : SampleChain) (who : Nat) =>
    c.nonce_mutateAccount who (fun i => { i with references := i.references + 1 }) fun _ => rfl
  validate_stale h := Chain.validate_stale h
  prepare_current := Chain.prepare_current (A := Airdrop.sampleConfig)
  prepare_future h := Chain.prepare_future h
  airdrop_incSufficients := fun (c : SampleChain) (who : Nat) =>
    sameAirdrop_sample c who fun i => { i with references := i.references + 1 }
  airdrop_prepare h := by
    cases Chain.prepare_eq h
    exact sameAirdrop_sample ..

def sampleInvitedEnv (secs : Nat) : Env sampleInvited := ⟨Duration.fromSecs secs, 1, (1 : Nat)⟩

/-- A chain of new accounts, with an airdrop that takes registrations. -/
def sampleChain : SampleChain := ⟨fun _ => ⟨0, 0⟩, Airdrop.sampleOpen, fun _ => []⟩

/-- A game with an airdrop in its registration phase. -/
def sampleInvitedActions : List (Store.Action sampleInvited) :=
  [(sampleInvitedEnv 0, .scheduleGames [⟨100, 1, 2, some ()⟩]), (sampleInvitedEnv 50, .onPoll ⟨100, 0⟩)]

/-- The ticket of an account, used by another with a nonce. -/
def sampleInvite (nonce : Nat) : GameAsInvited sampleInvites := ⟨nonce, (7 : Nat), (1 : Nat), ((5 : Nat), (1 : Nat))⟩

def sampleInvitations (s : Store sampleInvited) : Invitations sampleInvites :=
  ⟨s, StorageMap.empty.insert ((7 : Nat), (1 : Nat)) ()⟩

def sampleInvitedCall : ExtrinsicCall sampleInvited := .signUpWithInvite (some (.account (6 : Nat)))

namespace Invitations

/-- A new account plays with an invite, and takes part in the airdrop. -/
theorem invite_not_wasted_sample : ∃ s, Reaches Store.execAction (fun _ _ => True)
      (Store.genesis sampleInvited sampleChain) s ∧
    ∃ r c₂ c₃, (sampleInvitations s).validate (sampleInvitedEnv 50) (sampleInvite 0) (.signed (5 : Nat))
        sampleInvitedCall = .ok r ∧
      r.1.prepare (sampleInvite 0) (5 : Nat) = .ok c₂ ∧
      c₂.dispatch (sampleInvitedEnv 50) (.invited (5 : Nat)) sampleInvitedCall = .ok c₃ ∧
      ((c₃.postDispatch (5 : Nat)).store.players.get (.account (5 : Nat))).isSome = true := by
  obtain ⟨s, hs, hsome, hnonce⟩ := exists_reaches Store.execAction (fun _ _ => True)
    (Store.genesis sampleInvited sampleChain) sampleInvitedActions
    (fun s => ((sampleInvitations s).validate (sampleInvitedEnv 50) (sampleInvite 0) (.signed (5 : Nat))
      sampleInvitedCall).toOption.isSome = true ∧ sampleInvites.nonce s.world (5 : Nat) = 0) (by decide +kernel)
  obtain ⟨r, hr⟩ := Option.isSome_iff_exists.mp hsome
  rw [toOption_eq_some] at hr
  obtain ⟨who, airdrop, game, hwho, -, rfl, -⟩ := validate_eq_ok hr
  cases hwho
  obtain ⟨hcurrent, -, hprepared⟩ := invite_not_wasted lawfulInvites_sample hr
  obtain ⟨c₂, hprepare⟩ := hcurrent hnonce.symm
  obtain ⟨-, game, c₃, -, hdispatch, hplayer⟩ := hprepared c₂ hprepare
  exact ⟨s, hs, _, c₂, c₃, hr, hprepare, hdispatch, by rw [hplayer]; rfl⟩

/-- With a nonce that is one ahead, the same transaction is accepted and then not prepared. -/
theorem invite_not_wasted_fails : ∃ s, Reaches Store.execAction (fun _ _ => True)
      (Store.genesis sampleInvited sampleChain) s ∧
    ∃ r, (sampleInvitations s).validate (sampleInvitedEnv 50) (sampleInvite 1) (.signed (5 : Nat))
        sampleInvitedCall = .ok r ∧
      ∀ c₂, r.1.prepare (sampleInvite 1) (5 : Nat) ≠ .ok c₂ := by
  obtain ⟨s, hs, hany⟩ := exists_reaches Store.execAction (fun _ _ => True)
    (Store.genesis sampleInvited sampleChain) sampleInvitedActions
    (fun s => (((sampleInvitations s).validate (sampleInvitedEnv 50) (sampleInvite 1) (.signed (5 : Nat))
      sampleInvitedCall).toOption.any fun r => (r.1.prepare (sampleInvite 1) (5 : Nat)).toOption.isNone) = true)
    (by decide +kernel)
  obtain ⟨r, hr, hnone⟩ := (Option.any_eq_true _ _).mp hany
  refine ⟨s, hs, r, toOption_eq_some.mp hr, fun c₂ hprepare => ?_⟩
  rw [hprepare] at hnone
  cases hnone

end Invitations
end Individuality.Game
