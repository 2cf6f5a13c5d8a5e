import OssTest.ConfigInfo.OutputPath
import OssTest.ConfigInfo.ThreadNum
import OssTest.CpuMonitor
import OssTest.Log.Bounds
import OssTest.Log.Lock
import OssTest.Run.Channel
import OssTest.Run.Failures
import OssTest.Run.Filter
import OssTest.Run.Lifecycle
import OssTest.Run.Logging
import OssTest.Run.Loops
import OssTest.Run.Names
import OssTest.Run.Order
import OssTest.Run.Ready
import OssTest.Run.Refinement
import OssTest.Run.Report
import OssTest.Run.Results
import OssTest.Run.ScriptLength
import OssTest.Run.Sizes
import OssTest.Run.Termination
import OssTest.Singleton
import OssTest.UtilBox.Csv
import OssTest.UtilBox.Join
import OssTest.UtilBox.ReadFile
import OssTest.UtilBox.SplitList
import OssTest.UtilBox.SplitWith
