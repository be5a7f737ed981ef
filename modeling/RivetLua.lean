import RivetLua.Runtime.TableTraversal
import RivetLua.Runtime.Parking
import RivetLua.Runtime.ChunkEnvironment
import RivetLua.Runtime.ShortStringRuns
import RivetLua.Runtime.FailedAllocation
import RivetLua.Lib.Wire
import RivetLua.Bytecode.Module
import RivetLua.Bytecode.ReadBack
import RivetLua.Bytecode.OpenResults
import RivetLua.Bytecode.TransportScan
import RivetLua.Bytecode.TransportNative
import RivetLua.Bytecode.CloseSequences
import RivetLua.Bytecode.ArithmeticPair
import RivetLua.Bytecode.Official
import RivetLua.Compiler.Lower
import RivetLua.Compiler.FunctionWindows
import RivetLua.Compiler.GlobalInitializers
import RivetLua.Compiler.NumeralScan
import RivetLua.Compiler.TokenGeometry
import RivetLua.Stdlib.Utf8Consistency
import RivetLua.Stdlib.Quote
import RivetLua.Stdlib.NumeralAgreement
import RivetLua.Stdlib.PackRoundTrip
import RivetLua.Stdlib.UnpackSafety
import RivetLua.Stdlib.PatternRefinement
import RivetLua.Stdlib.PlainSearch
import RivetLua.Stdlib.GsubExpansion
import RivetLua.Stdlib.Utf8Offset
import RivetLua.Stdlib.TableSortRuns
import RivetLua.Stdlib.TableLists
import RivetLua.Runtime.LedgerConservation
import RivetLua.Core.ArithmeticLaws
import RivetLua.Runtime.NumberKeys
import RivetLua.Runtime.NumericLoop
import RivetLua.Runtime.TableRuns
import RivetLua.Stdlib.FloatParts
import RivetLua.Runtime.FrameRuns
import RivetLua.Runtime.RootRuns
import RivetLua.Runtime.ClosureMetadata
import RivetLua.Bytecode.TransportEncode
import RivetLua.Bytecode.NativeRoundTrip
