import FieldInjection.Main
import FieldInjection.Proofs.Edit.Ties
import FieldInjection.Proofs.Planning.LineBreaks
import FieldInjection.Proofs.Planning.Protocol
import FieldInjection.Proofs.Planning.ReadingBack
import FieldInjection.Proofs.Planning.Removals
import FieldInjection.Proofs.Planning.SecondRun
import FieldInjection.Proofs.Settings.Saving
import FieldInjection.Proofs.Settings.Validation
import FieldInjection.Proofs.Text.ObjectLiterals
import FieldInjection.Proofs.TypeScript.CommentedParameters
import FieldInjection.Proofs.TypeScript.Constructors
import FieldInjection.Proofs.Workspace.Batches
import FieldInjection.Proofs.Workspace.DryRun
import FieldInjection.Proofs.Workspace.Unpersisted
