import Individuality.Members.Suspension
import Individuality.Members.Notices
import Individuality.Members.Expiry
import Individuality.Members.Cohorts
import Individuality.Members.Onboarding
import Individuality.Notifier.Batches
import Individuality.Notifier.Pages
import Individuality.Replication.Replay
import Individuality.Replication.Accounting
import Individuality.MobRule.Verdicts
import Individuality.Score.Comebacks
import Individuality.Score.Fairness
import Individuality.Game.Attendances
import Individuality.Game.Invites
import Individuality.Game.Reshuffling
import Individuality.Personhood.Accountability
import Individuality.Honour.Replays
import Individuality.Pgas.Claims
import Individuality.Resources.Allowances
import Individuality.Resources.Usernames
import Individuality.AliasAccounts.Lapses
import Individuality.PeopleLite.Consumers
import Individuality.PeopleLite.Setups
import Individuality.ProofOfInk.Verdicts
import Individuality.ProofOfInk.Penalties
import Individuality.ProofOfInk.Seeds
import Individuality.PeoplePaseo.FreeRides
import Individuality.Coinage.Conversions
import Individuality.Coinage.PaidCleanup
import Individuality.Coinage.Retirement
import Individuality.DotnsGateway.Labels
import Individuality.StorageInitialization.Funding
import Individuality.Coinage.FreeTokens
import Individuality.Reality.Identity
import Individuality.ChunksManager.Writes
