import DocumentFilter.Compile
import DocumentFilter.Json.Reader
import DocumentFilter.Proofs.BareValue
import DocumentFilter.Proofs.Building
import DocumentFilter.Proofs.CaptureHistory
import DocumentFilter.Proofs.ClauseInvariant
import DocumentFilter.Proofs.CollectionGrammar
import DocumentFilter.Proofs.DateDecoding
import DocumentFilter.Proofs.DoubleNegation
import DocumentFilter.Proofs.Gating
import DocumentFilter.Proofs.IdentitySafety
import DocumentFilter.Proofs.IndexRule
import DocumentFilter.Proofs.MissingIndex
import DocumentFilter.Proofs.NormalForm
import DocumentFilter.Proofs.Pairing
import DocumentFilter.Proofs.ReadBack
import DocumentFilter.Proofs.RuleOrder
import DocumentFilter.Proofs.SchemaGate
import DocumentFilter.Proofs.SizeSign
import DocumentFilter.Proofs.SourceOrder
import DocumentFilter.Proofs.SplitNegation
import DocumentFilter.Proofs.TableGrammar
