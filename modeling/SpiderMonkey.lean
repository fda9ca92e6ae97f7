import SpiderMonkey.BigInt.Div
import SpiderMonkey.BigInt.Shift
import SpiderMonkey.BigInt.Bitwise
import SpiderMonkey.BigInt.AsN
import SpiderMonkey.BigInt.ParseLiteral
import SpiderMonkey.BigInt.NumberValue
import SpiderMonkey.Jit.DominatorTree
import SpiderMonkey.Jit.RangeSound
import SpiderMonkey.Jit.RangeBitwise
import SpiderMonkey.Builtin.PipeOrder
import SpiderMonkey.Builtin.ModuleNamespace
import SpiderMonkey.Gc.SweepGroups
import SpiderMonkey.Builtin.ModuleLinking
import SpiderMonkey.Builtin.ModuleEvaluation
import SpiderMonkey.Wasm.BulkTables
import SpiderMonkey.Wasm.Validation
import SpiderMonkey.Wasm.PathTypes
import SpiderMonkey.Builtin.WritableRuns
import SpiderMonkey.Builtin.DateTime
import SpiderMonkey.Proxy.DescriptorTraps
import SpiderMonkey.Proxy.History
import SpiderMonkey.StructuredClone.Scope
import SpiderMonkey.Builtin.FutexNotify
import SpiderMonkey.Builtin.DateCache
import SpiderMonkey.Builtin.PromiseCombinator
import SpiderMonkey.Builtin.PromiseFate
import SpiderMonkey.Jit.AliasSound
import SpiderMonkey.Frontend.PCToLineNumber
import SpiderMonkey.Gc.AtomSound
import SpiderMonkey.Gc.ChunkSound
import SpiderMonkey.Gc.RememberedSet
import SpiderMonkey.Jit.CompactValues
import SpiderMonkey.Jit.Snapshots
import SpiderMonkey.Wasm.VarIntsSound
import SpiderMonkey.Builtin.FloatSort
import SpiderMonkey.Vm.CharacterEncodingSound
import SpiderMonkey.BigInt.Pow
import SpiderMonkey.Jit.BetaSound
import SpiderMonkey.Builtin.RangeCacheRuns
import SpiderMonkey.Jit.DivisionPowTwo
import SpiderMonkey.Vm.LookupScope
import SpiderMonkey.Jit.LinearSum
import SpiderMonkey.Jit.AssemblerSpace
import SpiderMonkey.Builtin.PipeReports
import SpiderMonkey.Frontend.NameResolution
import SpiderMonkey.BigInt.PortableDigit
import SpiderMonkey.Ds.Sort
import SpiderMonkey.Ds.InlineTable
import SpiderMonkey.Jit.JitcodeMap
