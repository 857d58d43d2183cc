import Ifconfigd.Control.Requests
import Ifconfigd.Parent.Actions
import Ifconfigd.Gate.Loop
import Ifconfigd.Parse.Input
import Ifconfigd.Parse.Lexer
import Ifconfigd.Lib.Yacc
import Ifconfigd.Parse.Grammar
import Ifconfigd.Parse.Parser
import Ifconfigd.Parse.Symbols
import Ifconfigd.Selection
import Ifconfigd.Parse.Automaton
import Ifconfigd.Parse.Written
import Ifconfigd.Parse.Clean
import Ifconfigd.Parse.Simulation
import Ifconfigd.Parse.Macro
import Ifconfigd.Lib.Yacc.Moves
import Ifconfigd.Lib.Yacc.Steps
import Ifconfigd.Parse.Tokens
import Ifconfigd.Parse.Print
import Ifconfigd.Parse.Statements
import Ifconfigd.Parse.Sections
import Ifconfigd.Parse.RoundTrip
import Ifconfigd.Monitor.Radios
import Ifconfigd.Gate.Vector
import Ifconfigd.Monitor.Leftovers
import Ifconfigd.Parent.LifeCycle
import Ifconfigd.Lib.EventBase
import Ifconfigd.Pending
import Ifconfigd.Lib.Yacc.Abreast
import Ifconfigd.Lib.Yacc.Lockstep
import Ifconfigd.Parse.Atop
import Ifconfigd.Parse.Values
import Ifconfigd.Parse.Beside
import Ifconfigd.Parse.Again
import Ifconfigd.Lib.Yacc.Trace
import Ifconfigd.Parse.Notes
import Ifconfigd.Parent.Lookup
import Ifconfigd.Parent.Reads
import Ifconfigd.Monitor.Scan
import Ifconfigd.Lib.Slots
import Ifconfigd.Monitor.Addresses
import Ifconfigd.Monitor.Decoding
import Ifconfigd.Parse.Options
import Ifconfigd.Parse.Kinds
import Ifconfigd.Parse.Numbers
import Ifconfigd.Lib.Dialogue
import Ifconfigd.Gate.Ioctls
import Ifconfigd.Gate.Globals
import Ifconfigd.Gate.Names
import Ifconfigd.Gate.History
import Ifconfigd.Gate.Keys
import Ifconfigd.Lib.Levels
import Ifconfigd.Lib.Yacc.Measure
import Ifconfigd.Parse.Tracking
import Ifconfigd.Parse.Include
import Ifconfigd.Parse.Progress
import Ifconfigd.Parse.Termination
import Ifconfigd.Parse.Accesses
import Ifconfigd.Parse.Bounds
import Ifconfigd.Parse.MacroUse
import Ifconfigd.Parse.Ahead
import Ifconfigd.Parse.Quotes
import Ifconfigd.Parse.Words
import Ifconfigd.Parse.Lines
import Ifconfigd.Parse.TokenLine
import Ifconfigd.Parse.Diagnostics
import Ifconfigd.Parse.LexPair
import Ifconfigd.Parse.Paired
import Ifconfigd.Parse.Above
import Ifconfigd.Parse.Graft
import Ifconfigd.Parse.Newlines
import Ifconfigd.Parse.BlankLines
import Ifconfigd.Lib.WordTable
import Ifconfigd.Lib.Getopt
import Ifconfigd.Pipeline
import Ifconfigd.Pipeline.Delivery
import Ifconfigd.Client
import Ifconfigd.Pipeline.Clients
import Ifconfigd.Parse.Safe
import Ifconfigd.Parse.Ownership
import Ifconfigd.Parse.Dictionary
import Ifconfigd.Startup
import Ifconfigd.Startup.Privileges
