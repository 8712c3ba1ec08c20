import LogRotation.FileSystem.Tree
import LogRotation.Main
import LogRotation.World
import LogRotation.Proofs.Grammar
import LogRotation.Proofs.Looks
import LogRotation.Proofs.Throttle
import LogRotation.Proofs.ArchiveNames
import LogRotation.Proofs.Places
import LogRotation.Proofs.Frames
import LogRotation.Proofs.Interference
import LogRotation.Proofs.Ledger
import LogRotation.Proofs.Pages
import LogRotation.Proofs.Archiving
import LogRotation.Proofs.Bookkeeping
import LogRotation.Proofs.Durability
import LogRotation.Proofs.Dates
import LogRotation.Proofs.Moments
import LogRotation.DateFormat.Strftime
import LogRotation.Proofs.Tokens
import LogRotation.Proofs.Rendering
import LogRotation.Proofs.Tales
import LogRotation.Proofs.Reopening
import LogRotation.Proofs.Handover
import LogRotation.Proofs.Directories
import LogRotation.Proofs.Smoothness
import LogRotation.Proofs.Deposits
import LogRotation.Proofs.Chronicles
import LogRotation.Proofs.Shifts
import LogRotation.Proofs.Volumes
import LogRotation.Proofs.Undisturbed
import LogRotation.Proofs.Filing
import LogRotation.Proofs.Departures
import LogRotation.Proofs.JumpingClocks
import LogRotation.Proofs.Unfailing
import LogRotation.Proofs.DatedFiles
import LogRotation.Proofs.Effects
import LogRotation.Proofs.Asides
import LogRotation.Proofs.Background
import LogRotation.Proofs.Blame
import LogRotation.Proofs.Journals
import LogRotation.Proofs.Captures
import LogRotation.Proofs.Instants
import LogRotation.Proofs.Verbs
import LogRotation.Proofs.Agreement
import LogRotation.Proofs.DaysAndWeeks
import LogRotation.Proofs.Conservation
import LogRotation.Proofs.FailedRolls
import LogRotation.Proofs.Ancestry
import LogRotation.Proofs.Renaming
import LogRotation.Proofs.Transcripts
import LogRotation.Proofs.FirstRecords
import LogRotation.Proofs.LiveTails
import LogRotation.Proofs.Acceptance
import LogRotation.Proofs.Quoting
import LogRotation.Proofs.ShiftedClocks
import LogRotation.Proofs.SortedNames
import LogRotation.Proofs.JsonSettings
