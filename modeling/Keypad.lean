import Keypad.Main
import Keypad.Program
import Keypad.Proofs.Layout.Laws
import Keypad.Proofs.Name.Tokens
import Keypad.Proofs.Name.Acceptance
import Keypad.Proofs.Name.Combinations
import Keypad.Proofs.Name.Highlight
import Keypad.Proofs.Name.Initials
import Keypad.Proofs.Name.Keys
import Keypad.Proofs.Name.Loosening
import Keypad.Proofs.Name.Memo
import Keypad.Proofs.Name.Plan
import Keypad.Proofs.Name.WholeWords
import Keypad.Proofs.CallingCode
import Keypad.Proofs.Number.Alignment
import Keypad.Proofs.Number.AreaCode
import Keypad.Proofs.Number.CallingCode
import Keypad.Proofs.Number.Formatting
import Keypad.Proofs.Number.Highlight
import Keypad.Proofs.Mask
import Keypad.Proofs.Matcher.Session
import Keypad.Proofs.Region.Session
import Keypad.Proofs.Contact.Search
import Keypad.Proofs.Contact.Narrowing
import Keypad.Proofs.Schema
import Keypad.Proofs.Policy
import Keypad.Proofs.Builtin
import Keypad.Proofs.Loading
import Keypad.Proofs.CommandLine.Reports
import Keypad.Proofs.CommandLine.SearchReport
