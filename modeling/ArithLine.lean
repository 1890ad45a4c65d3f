import ArithLine.Main
import ArithLine.Proofs.Rendering
import ArithLine.Proofs.Spans
import ArithLine.Proofs.Outcome
import ArithLine.Proofs.Continuation
import ArithLine.Proofs.Grammar.Context
import ArithLine.Proofs.Operand
import ArithLine.Proofs.Lines
import ArithLine.Proofs.Session
import ArithLine.Proofs.Blanks
import ArithLine.Proofs.Prompt
import ArithLine.Proofs.Grammar.Relocation
import ArithLine.Proofs.Parentheses.Reports
import ArithLine.Proofs.Parentheses.Enclosure
import ArithLine.Proofs.Parentheses
import ArithLine.Proofs.Transcript
import ArithLine.Proofs.Presentation
import ArithLine.Proofs.Dump
import ArithLine.Proofs.Json.Written
import ArithLine.Proofs.Json.Stored
import ArithLine.Proofs.Walk
import ArithLine.Proofs.History
import ArithLine.Proofs.Skeleton
import ArithLine.Proofs.Log
import ArithLine.Proofs.Warnings
import ArithLine.Proofs.Origin
import ArithLine.Proofs.Numerals
import ArithLine.Proofs.Layout
import ArithLine.Proofs.Screen
import ArithLine.Proofs.Controls
import ArithLine.Proofs.Escapes
import ArithLine.Proofs.CommandLine
import ArithLine.Proofs.Nesting
import ArithLine.Proofs.OrderedChoice
