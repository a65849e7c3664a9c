import PromptBlocks.Main
import PromptBlocks.Proofs.Chain.Relinking
import PromptBlocks.Proofs.Edit.Additivity
import PromptBlocks.Proofs.Edit.Preservation
import PromptBlocks.Proofs.Grammar.Collateral
import PromptBlocks.Proofs.Grammar.Convergence
import PromptBlocks.Proofs.Grammar.Exactness.English
import PromptBlocks.Proofs.Grammar.Exactness.Japanese
import PromptBlocks.Proofs.Grammar.Runs
import PromptBlocks.Proofs.Grammar.Suppression
import PromptBlocks.Proofs.Host.Sources
import PromptBlocks.Proofs.Script.Representable
import PromptBlocks.Proofs.Shelf.Refinement
import PromptBlocks.Proofs.Shelf.Idempotence
import PromptBlocks.Proofs.Shelf.Dependence
import PromptBlocks.Proofs.Shelf.Alignment
import PromptBlocks.Proofs.Pattern.Share
import PromptBlocks.Proofs.Pattern.Catalog
import PromptBlocks.Proofs.Pattern.Precedence
import PromptBlocks.Proofs.Pattern.Matching
import PromptBlocks.Proofs.Edit.Application
import PromptBlocks.Proofs.Edit.Anchors
import PromptBlocks.Proofs.Pattern.Orders
import PromptBlocks.Proofs.Chain.Linearization
import PromptBlocks.Proofs.Script.Composition
import PromptBlocks.Proofs.Grammar.Blindness
import PromptBlocks.Proofs.Grammar.Wording
import PromptBlocks.Proofs.Pattern.Signature
import PromptBlocks.Proofs.Pattern.Wording
import PromptBlocks.Proofs.Pattern.Ranking
import PromptBlocks.Proofs.Script.Forms
import PromptBlocks.Proofs.Host.Serving
import PromptBlocks.Proofs.Host.Containment
import PromptBlocks.Proofs.Shelf.Tables
import PromptBlocks.Proofs.Record.Heads
import PromptBlocks.Proofs.Record.BlockIds
import PromptBlocks.Proofs.Record.RoundTrip
import PromptBlocks.Proofs.Record.Catalog
import PromptBlocks.Proofs.Edit.Histories
import PromptBlocks.Proofs.Sequence.Partition
import PromptBlocks.Proofs.Chain.Building
