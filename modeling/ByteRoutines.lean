import ByteRoutines.Proofs.LoopPolicy
import ByteRoutines.Proofs.Config.EntryText
import ByteRoutines.Proofs.Config.RangeText
import ByteRoutines.Proofs.Cpu.LeafSize
import ByteRoutines.Proofs.Kernel.Chunk
import ByteRoutines.Proofs.Kernel.Overlap
import ByteRoutines.Proofs.Register.Word
import ByteRoutines.Proofs.Routine.Binding
import ByteRoutines.Proofs.Routine.Compare
import ByteRoutines.Proofs.Routine.Configuration
import ByteRoutines.Proofs.Routine.Copy
import ByteRoutines.Proofs.Routine.Direction
import ByteRoutines.Proofs.Routine.Extent
import ByteRoutines.Proofs.Routine.Fill
import ByteRoutines.Proofs.Routine.Find
import ByteRoutines.Proofs.Routine.Pages
import ByteRoutines.Proofs.Routine.Precondition
import ByteRoutines.Proofs.Routine.Region
import ByteRoutines.Proofs.Routine.StringCopy
import ByteRoutines.Proofs.Slice.Append
import ByteRoutines.Proofs.Slice.Compare
