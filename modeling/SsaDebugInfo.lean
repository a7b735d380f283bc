import SsaDebugInfo.Script.Session
import SsaDebugInfo.Proofs.Script.DebugCalls
import SsaDebugInfo.Proofs.Script.Migration
import SsaDebugInfo.Proofs.Script.Attribution
import SsaDebugInfo.Proofs.Script.Pieces
import SsaDebugInfo.Proofs.Script.Naming
import SsaDebugInfo.Proofs.Script.Indexing
import SsaDebugInfo.Proofs.Script.Emitting
import SsaDebugInfo.Proofs.Script.Predecessors
import SsaDebugInfo.Proofs.Script.Ownership
import SsaDebugInfo.Proofs.Script.Relocation
import SsaDebugInfo.Proofs.Script.Scattering
import SsaDebugInfo.Proofs.Resolver
import SsaDebugInfo.Proofs.Script.AnyOrder
import SsaDebugInfo.Proofs.Script.Exceeding
import SsaDebugInfo.Proofs.Script.Stranded
import SsaDebugInfo.Proofs.Script.Tiling
import SsaDebugInfo.Proofs.Expression
import SsaDebugInfo.Proofs.Script.Sizes
import SsaDebugInfo.Proofs.Script.FirstMet
import SsaDebugInfo.Proofs.Script.Detours
import SsaDebugInfo.Proofs.Script.Erasing
import SsaDebugInfo.Proofs.Script.Registration
import SsaDebugInfo.Proofs.Script.Grounded
import SsaDebugInfo.Proofs.Operands
import SsaDebugInfo.Proofs.Expression.Legible
import SsaDebugInfo.Proofs.Ir.Comments
