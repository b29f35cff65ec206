import SexprReader.Cli
import SexprReader.Main
import SexprReader.Node.Leaves
import SexprReader.Reader.Step
import SexprReader.Proofs.ChainRule
import SexprReader.Proofs.Lossless
import SexprReader.Proofs.Scannable
import SexprReader.Proofs.Reading
import SexprReader.Proofs.FlatReading
import SexprReader.Proofs.Tally
import SexprReader.Proofs.Segmentation
import SexprReader.Proofs.Limit
import SexprReader.Proofs.Closers
import SexprReader.Proofs.Legible
import SexprReader.Proofs.Balanced
import SexprReader.Proofs.Agreement
import SexprReader.Proofs.Quoting
import SexprReader.Proofs.Joining
import SexprReader.Proofs.Locality
import SexprReader.Proofs.OpenLists
import SexprReader.Proofs.Completion
import SexprReader.Proofs.Session
import SexprReader.Proofs.Judgement
import SexprReader.Proofs.CommandLine
import SexprReader.Proofs.FlatClosers
import SexprReader.Proofs.OutlineBlocks
