import MethodArea.AccessFlags
import MethodArea.Area.Basic
import MethodArea.Area.Binding
import MethodArea.Area.Linking
import MethodArea.Area.Run
import MethodArea.Attribute.Basic
import MethodArea.Attribute.Decoding
import MethodArea.Attribute.Layout
import MethodArea.Attribute.Nesting
import MethodArea.Class
import MethodArea.ClassFile
import MethodArea.ConstantPool
import MethodArea.Decimal.Binary
import MethodArea.Decimal.Layout
import MethodArea.Decimal.Shortest
import MethodArea.Descriptor.Basic
import MethodArea.Descriptor.Interner
import MethodArea.Descriptor.Reader
import MethodArea.Error
import MethodArea.ExceptionTable
import MethodArea.Field
import MethodArea.Hierarchy
import MethodArea.LineTable
import MethodArea.Member
import MethodArea.Method.Basic
import MethodArea.Method.Cells
import MethodArea.Method.Loading
import MethodArea.Native.BuiltIn
import MethodArea.Native.Registry
import MethodArea.Native.Value
import MethodArea.References
import MethodArea.Table
import MethodArea.Text.ModifiedUtf8
import MethodArea.Text.Printable
import MethodArea.Text.Quoted
import MethodArea.Text.Units
import MethodArea.Proofs.Descriptor.FieldTypes
import MethodArea.Proofs.Descriptor.Faults
import MethodArea.Proofs.Descriptor.Grammar
import MethodArea.Proofs.Handlers
import MethodArea.Proofs.Area.Effects
import MethodArea.Proofs.Area.CodeAndHandlers
import MethodArea.Proofs.Area.CodeOrNative
import MethodArea.Proofs.Area.History
import MethodArea.Proofs.Area.NativeBinding
import MethodArea.Proofs.Attribute.Decoding
import MethodArea.Proofs.Attribute.Depth
import MethodArea.Proofs.Loading.FirstDefect
import MethodArea.Proofs.Area.Dispatch
import MethodArea.Proofs.ConstantPool.Text
import MethodArea.Proofs.ConstantPool.Pointwise
import MethodArea.Proofs.Area.Subclasses
import MethodArea.Proofs.Area.Frame
import MethodArea.Proofs.Area.Interning
import MethodArea.Proofs.Lines
import MethodArea.Proofs.Area.SourceLines
import MethodArea.Proofs.Area.Replacement
import MethodArea.Proofs.FieldSlots
import MethodArea.Proofs.Loading.Rearranged
import MethodArea.Proofs.Loading.LastCode
import MethodArea.Proofs.Descriptor.PrefixCode
import MethodArea.Proofs.ArgumentSlots
import MethodArea.Proofs.EntryPoint
import MethodArea.Proofs.Area.BuiltIn
