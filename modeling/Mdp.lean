import Mdp.Library.Program
import Mdp.Library.Protocol
import Mdp.Library.Interrupts
import Mdp.Library.Files
import Mdp.Library.Lines
import Mdp.Library.Locale
import Mdp.Library.TableCrc
import Mdp.Crc
import Mdp.System
import Mdp.Results
import Mdp.Utils
import Mdp.Tokens
import Mdp.Cleanup
import Mdp.Load
import Mdp.Gpg
import Mdp.Search
import Mdp.Pager
import Mdp.Profile
import Mdp.ConfigFile
import Mdp.CommandLine
import Mdp.Editor
import Mdp.Main
import Mdp.Launch
import Mdp.Session
import Mdp.Effects
import Mdp.Frame
import Mdp.Scenario
import Mdp.Conformance
import Mdp.Outcome
import Mdp.Signals
import Mdp.Verif.Replacement
import Mdp.Verif.Saving
import Mdp.Verif.Decoding
import Mdp.Verif.RoundTrip
import Mdp.Verif.NoChanges
import Mdp.Verif.Burst
import Mdp.Verif.Entries
import Mdp.Verif.Comments
import Mdp.Verif.Declared
import Mdp.Verif.Sections
import Mdp.Verif.Backup
import Mdp.Verif.Recipient
import Mdp.Verif.Printing
import Mdp.Verif.Listing
import Mdp.Verif.Appending
import Mdp.Verif.Undisturbed
import Mdp.Verif.Adding
import Mdp.Verif.Finding
import Mdp.Verif.Aborting
import Mdp.Verif.Leaving
import Mdp.Library.Interleaving
import Mdp.Pool
import Mdp.Verif.Exclusion
import Mdp.Library.Forking
import Mdp.Calls
import Mdp.Processes
import Mdp.Verif.ChildCleanup
import Mdp.Library.FirstMaximum
import Mdp.Randpass
import Mdp.Verif.Drawing
import Mdp.Verif.Uniformity
import Mdp.Screen
import Mdp.Verif.Numerals
import Mdp.Verif.Timeout
import Mdp.Verif.Making
import Mdp.Verif.Counts
import Mdp.Verif.Quoting
import Mdp.Verif.CharacterSets
import Mdp.Matching
import Mdp.Verif.Keywords
import Mdp.Library.Stacking
import Mdp.Verif.Loading
import Mdp.Verif.Layout
import Mdp.Verif.Fitting
import Mdp.Verif.Columns
import Mdp.Strings
import Mdp.Verif.Substring
import Mdp.Verif.Joining
import Mdp.Library.LastArgument
import Mdp.Commands
import Mdp.Verif.SwapFile
import Mdp.Verif.ShellPaths
import Mdp.Arc4random
import Mdp.Library.Rejection
import Mdp.Verif.Generator
import Mdp.Verif.Bounded
import Mdp.Library.BinaryPolynomial
import Mdp.Library.CrcPolynomial
import Mdp.Verif.Checksum
import Mdp.Startup
import Mdp.Verif.PrivateFiles
import Mdp.Library.OnCells
import Mdp.ConfigMemory
import Mdp.Verif.ReadingInPlace
import Mdp.Library.Stopping
import Mdp.Arrays
import Mdp.Verif.GrowingArrays
import Mdp.KeywordMemory
import Mdp.Verif.KeywordStore
import Mdp.Roles
import Mdp.Verif.GpgChildren
import Mdp.Terminal
import Mdp.Verif.PagerScreen
