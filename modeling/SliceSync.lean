import SliceSync.Main
import SliceSync.Describe
import SliceSync.Log
import SliceSync.Proofs.Passages
import SliceSync.Proofs.Runs
import SliceSync.Proofs.Moves
import SliceSync.Proofs.Views
import SliceSync.Proofs.Places
import SliceSync.Proofs.Batches
import SliceSync.Proofs.Deeds
import SliceSync.Proofs.Standard
import SliceSync.Proofs.Counts
import SliceSync.Proofs.Plain
import SliceSync.Proofs.References
import SliceSync.Proofs.Files
import SliceSync.Proofs.SourceItems
import SliceSync.Proofs.Streams
import SliceSync.Proofs.Confluence
import SliceSync.Proofs.Rounds
import SliceSync.Proofs.Scenes
import SliceSync.Proofs.Lines
import SliceSync.Proofs.Lifecycle
import SliceSync.Proofs.Milestones
import SliceSync.Proofs.Live
import SliceSync.Proofs.Stages
import SliceSync.Proofs.Chronicle
import SliceSync.Proofs.Unloading
import SliceSync.Proofs.Fairness
import SliceSync.Proofs.Teardown
import SliceSync.Proofs.Attempts
import SliceSync.Proofs.Turns
import SliceSync.Proofs.Retries
import SliceSync.Proofs.Trials
import SliceSync.Proofs.Turnovers
import SliceSync.Proofs.Remnants
import SliceSync.Proofs.Notices
import SliceSync.Proofs.Accounts
import SliceSync.Proofs.Jobs
import SliceSync.Proofs.HostSteps
import SliceSync.Proofs.Outcomes
import SliceSync.Proofs.Owing
import SliceSync.Proofs.Shutdowns
import SliceSync.Proofs.Seats
import SliceSync.Proofs.Causes
import SliceSync.Proofs.Reconciling
import SliceSync.Proofs.Diaries
import SliceSync.Proofs.Driving
import SliceSync.Proofs.DriverExits
import SliceSync.Proofs.Ebbing
import SliceSync.Proofs.Custody
import SliceSync.Proofs.WriteAttempts
import SliceSync.Proofs.Independence
import SliceSync.Proofs.Orders
import SliceSync.Proofs.Options
import SliceSync.Proofs.Carrying
import SliceSync.Proofs.Holding
import SliceSync.Proofs.Alternation
import SliceSync.Proofs.Differences
import SliceSync.Proofs.Labels
import SliceSync.Proofs.Creations
import SliceSync.Proofs.Names
import SliceSync.Proofs.Agreement
import SliceSync.Proofs.Identities
import SliceSync.Proofs.Selections
import SliceSync.Proofs.Spelling
import SliceSync.Proofs.Quoting
import SliceSync.Proofs.Patches
import SliceSync.Proofs.Dispatch
import SliceSync.Proofs.Conduits
import SliceSync.Proofs.Traffic
import SliceSync.Proofs.Pairings
import SliceSync.Proofs.Deliveries
import SliceSync.Proofs.Keeping
import SliceSync.Proofs.Kinship
import SliceSync.Proofs.Merging
