import SymbolCoverage.Disk.Tree
import SymbolCoverage.Main
import SymbolCoverage.Metadata.Writing
import SymbolCoverage.Proofs.Coverage.Content
import SymbolCoverage.Proofs.Symbol.RoundTrip
import SymbolCoverage.Symbol.Encode
import SymbolCoverage.Symbol.HashReading
import SymbolCoverage.Proofs.Coverage.Reachable
import SymbolCoverage.Proofs.Coverage.Merging
import SymbolCoverage.Proofs.Symbol.Tokens
import SymbolCoverage.Proofs.Symbol.Canonical
import SymbolCoverage.Proofs.Coverage.Agreement
import SymbolCoverage.Proofs.Coverage.Encoded
import SymbolCoverage.Proofs.Coverage.SupplyOrder
import SymbolCoverage.Proofs.Coverage.Unopened
import SymbolCoverage.Proofs.Json.Literals
import SymbolCoverage.Proofs.Json.Values
import SymbolCoverage.Proofs.Json.Printing
import SymbolCoverage.Proofs.Coverage.Rendering
import SymbolCoverage.Proofs.Json.Numerals
import SymbolCoverage.Proofs.Json.Extent
import SymbolCoverage.Proofs.Json.Records
import SymbolCoverage.Proofs.Metadata.Documents
import SymbolCoverage.Proofs.Metadata.Writing
import SymbolCoverage.Proofs.Metadata.Tables
import SymbolCoverage.Proofs.Coverage.Explaining
import SymbolCoverage.Proofs.Coverage.TextLines
import SymbolCoverage.Proofs.Symbol.EscapeFree
import SymbolCoverage.Proofs.Coverage.Accumulation
import SymbolCoverage.Proofs.Symbol.Malformation
import SymbolCoverage.Proofs.Coverage.FailedInsertion
import SymbolCoverage.Proofs.Discovery.Naming
import SymbolCoverage.Proofs.Text.Backtracking
import SymbolCoverage.Proofs.Discovery.NamePatterns
import SymbolCoverage.Proofs.Discovery.Searching
import SymbolCoverage.Proofs.Discovery.Supplied
import SymbolCoverage.Proofs.Discovery.ShortNames
import SymbolCoverage.Proofs.Text.Cuts
import SymbolCoverage.Proofs.Symbol.Bytewise
import SymbolCoverage.Proofs.Symbol.InBounds
