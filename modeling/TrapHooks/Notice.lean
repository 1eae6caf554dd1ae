import TrapHooks.Call
import TrapHooks.Host.Request

/-!
What the engine tells of its work to those who watch it. A notice is an event with its values; the
wording, the level and the named fields are those of the log.
-/

namespace TrapHooks

inductive Level
  | trace
  | debug
  | info
  | warn
deriving DecidableEq, Repr

def Level.name : Level → String
  | trace => "TRACE"
  | debug => "DEBUG"
  | info => "INFO"
  | warn => "WARN"

inductive Notice
  | tableLoaded (name : String) (hooks : Nat)
  | initialized
  | reset
  | libraryRefreshed (refnum : UInt16) (library : Option String) (found : Bool)
  | saved (version : Int32) (records : Nat)
  | loaded (version : Int32) (records : Nat)
  | noChunk
  | hookGone (call : Call)
  | recordReplaced (address : UInt32)
  | bootstrapping
  | debuggerFeatureFailed (attached : Bool) (error : ErrorCode)
  | overlayFeatureFailed (error : ErrorCode)
  | userNameUnreadable (error : ErrorCode)
  | autoloadFailed (reason : String)
  | transportFailed (line : Line) (reason : String)
  | handled (call : Call) (decision : Decision)
  | armed (address : UInt32)
  | armedAgain (address : UInt32) (count : UInt32)
  | disarmed (address : UInt32)
  | tailCalled (table : String) (index : UInt16)
  | notIdle
  | ruleApplied (rule : String)
  | replayEmpty
  | stressEmpty
  | stressOutOfPlace (trap : UInt16)
  | waitShortened (ticks : Int32)
  | keyPosted (key modifiers : UInt16)
  | penPosted (point : Point)
  | launching (app : DatabaseRef)
  | launchingOwner (app document : UInt32)
  | switchFailed (app : DatabaseRef) (error : ErrorCode)
deriving DecidableEq, Repr

namespace Notice

def level : Notice → Level
  | initialized | saved _ _ | loaded _ _ | bootstrapping => .info
  | noChunk | recordReplaced _ | autoloadFailed _ | transportFailed _ _ => .warn
  | handled _ _ | armed _ | armedAgain _ _ | disarmed _ | tailCalled _ _ | ruleApplied _ | waitShortened _
  | keyPosted _ _ | penPosted _ => .trace
  | _ => .debug

def message : Notice → String
  | tableLoaded _ _ => "加载补丁模块"
  | initialized => "补丁引擎初始化完成"
  | reset => "补丁引擎已复位"
  | libraryRefreshed _ _ _ => "刷新库补丁表"
  | saved _ _ => "保存补丁数据块"
  | loaded _ _ => "加载补丁数据块"
  | noChunk => "会话中没有补丁数据块，标记为不可重新加载"
  | hookGone _ => "恢复的尾补丁已无对应例程"
  | recordReplaced _ => "恢复的尾补丁记录地址重复，保留后者"
  | bootstrapping => "执行加载后修复"
  | debuggerFeatureFailed _ _ => "无法更新调试器特性"
  | overlayFeatureFailed _ => "无法设置覆盖层错误特性"
  | userNameUnreadable _ => "无法读取 HotSync 用户名"
  | autoloadFailed reason => "自动加载失败: " ++ reason
  | transportFailed _ reason => "无法重新打开传输通道: " ++ reason
  | handled _ _ => "陷阱处理完成"
  | armed _ => "安装尾补丁"
  | armedAgain _ _ => "尾补丁重入"
  | disarmed _ => "移除尾补丁"
  | tailCalled _ _ => "调用尾补丁"
  | notIdle => "事件管理器非空闲，不注入事件"
  | ruleApplied _ => "事件注入"
  | replayEmpty => "回放没有产生事件"
  | stressEmpty => "Hordes 没有投递事件"
  | stressOutOfPlace _ => "上一个事件陷阱不是取事件，不投递"
  | waitShortened _ => "清除无限等待"
  | keyPosted _ _ => "投递按键事件"
  | penPosted _ => "投递触笔事件"
  | launching _ => "切换到应用"
  | launchingOwner _ _ => "以打开数据库方式启动应用"
  | switchFailed _ _ => "应用切换失败"

/-- The named values of a notice, in the order in which the log has them. -/
def fields : Notice → List (String × String)
  | tableLoaded name hooks => [("module", name), ("hooks", toString hooks)]
  | libraryRefreshed refnum library found =>
    [("refnum", toString refnum.toNat), ("library", library.getD "<none>"), ("patched", toString found)]
  | saved version records => [("version", toString version.toInt), ("tailpatches", toString records)]
  | loaded version records => [("version", toString version.toInt), ("tailpatches", toString records)]
  | hookGone call => [("context", call.text)]
  | recordReplaced address => [("ret", Hex.long address)]
  | debuggerFeatureFailed attached error => [("debugger", toString attached), ("error", error.message)]
  | overlayFeatureFailed error => [("error", error.message)]
  | userNameUnreadable error => [("error", error.message)]
  | transportFailed line _ => [("uart", line.name)]
  | handled call decision => [("context", call.text), ("call_rom", decision.name)]
  | armed address => [("ret", Hex.long address)]
  | armedAgain address count => [("ret", Hex.long address), ("count", toString count.toNat)]
  | disarmed address => [("ret", Hex.long address)]
  | tailCalled table index => [("module", table), ("index", toString index.toNat)]
  | ruleApplied rule => [("rule", rule)]
  | stressOutOfPlace trap => [("last_evt_trap", Hex.word trap)]
  | waitShortened ticks => [("ticks", toString ticks.toInt)]
  | keyPosted key modifiers => [("key", toString key.toNat), ("modifiers", toString modifiers.toNat)]
  | penPosted point => [("x", toString point.x.toInt), ("y", toString point.y.toInt)]
  | launching app => [("card_no", toString app.card.toNat), ("db_id", Hex.number app.id.toNat)]
  | launchingOwner app document => [("app_db_id", Hex.number app.toNat), ("db_id", Hex.number document.toNat)]
  | switchFailed app error =>
    [("card_no", toString app.card.toNat), ("db_id", Hex.number app.id.toNat), ("error", error.message)]
  | initialized | reset | noChunk | bootstrapping | autoloadFailed _ | notIdle | replayEmpty | stressEmpty => []

end Notice

end TrapHooks
