import TrapHooks.Config.Shipped

/-!
The command line of the inspection tool. Two options take a value, which may be attached or be the
next argument; an option whose value is still to come is settled when the next option is met, or at
the end. Arguments are refused in the order in which they stand.
-/

namespace TrapHooks

structure CommandLine where
  config : String := Config.shippedPath
  chunk : Option String := none
  hex : Bool := false
deriving DecidableEq, Repr

namespace CommandLine

inductive Fault
  | unknownArgument
  | missingValue
  | repeatedOption
  | unexpectedValue
deriving DecidableEq, Repr

def Fault.message : Fault → String
  | unknownArgument => "无法识别的参数"
  | missingValue => "选项缺少取值"
  | repeatedOption => "选项重复"
  | unexpectedValue => "选项不接受取值"

/-- Why a command line leads to no work. -/
inductive Refusal
  | fault (f : Fault)
  /-- It asks for the text that explains the command line. -/
  | help
  /-- It asks for the text that tells the version. -/
  | version
deriving DecidableEq, Repr

inductive ValueOption
  | config
  | chunk
deriving DecidableEq, Repr

inductive Flag
  | hex
  | help
  | version
deriving DecidableEq, Repr

structure Progress where
  config : Option String := none
  chunk : Option String := none
  hex : Bool := false
  /-- The option that is not settled yet, with its value if that has been met. -/
  pending : Option (ValueOption × Option String) := none
  /-- Whether the mark was met behind which nothing is an option. -/
  trailing : Bool := false
deriving DecidableEq, Repr

namespace Progress

/-- Keeps an option's value; an option is given at most once. -/
def keep (o : ValueOption) (value : String) (p : Progress) : Except Refusal Progress :=
  match o with
  | .config => if p.config.isSome then .error (.fault .repeatedOption) else .ok { p with config := some value }
  | .chunk => if p.chunk.isSome then .error (.fault .repeatedOption) else .ok { p with chunk := some value }

/-- Settles the option that was not settled yet. -/
def settle (p : Progress) : Except Refusal Progress :=
  match p.pending with
  | none => .ok p
  | some (_, none) => .error (.fault .missingValue)
  | some (o, some value) => { p with pending := none }.keep o value

/-- An option with the value that is attached to it, if there is one. -/
def option (o : ValueOption) (attached : Option String) (p : Progress) : Except Refusal Progress := do
  let p ← p.settle
  match attached with
  | some value => p.keep o value
  | none => return { p with pending := some (o, none) }

def flag (f : Flag) (p : Progress) : Except Refusal Progress := do
  let p ← p.settle
  match f with
  | .hex => if p.hex then throw (.fault .repeatedOption) else return { p with hex := true }
  | .help => throw .help
  | .version => throw .version

/-- An argument that is no option: the value that is waited for, or nothing known. -/
def plain (arg : String) (p : Progress) : Except Refusal Progress :=
  match p.pending with
  | some (o, none) => .ok { p with pending := some (o, some arg) }
  | _ => .error (.fault .unknownArgument)

def long (name : List Char) (attached : Option String) (p : Progress) : Except Refusal Progress :=
  let withFlag (f : Flag) : Except Refusal Progress :=
    if attached.isSome then .error (.fault .unexpectedValue) else p.flag f
  if name = "config".toList then p.option .config attached
  else if name = "chunk".toList then p.option .chunk attached
  else if name = "hex".toList then withFlag .hex
  else if name = "help".toList then withFlag .help
  else if name = "version".toList then withFlag .version
  else .error (.fault .unknownArgument)

/-- Options by their short names: the first takes the rest for its value, or ends the reading. -/
def short (name : Char) (rest : List Char) (p : Progress) : Except Refusal Progress :=
  if name = 'c' then
    match rest with
    | [] => p.option .config none
    | '=' :: value => p.option .config (some (String.ofList value))
    | value => p.option .config (some (String.ofList value))
  else if name = 'h' then p.flag .help
  else if name = 'V' then p.flag .version
  else .error (.fault .unknownArgument)

/-- The name of a long option, and the value behind the first equals sign. -/
def splitLong (text : List Char) : List Char × Option String :=
  match text.span (· ≠ '=') with
  | (name, []) => (name, none)
  | (name, _ :: value) => (name, some (String.ofList value))

/-- Reads one argument. A lone dash is no option. -/
def read (p : Progress) (arg : String) : Except Refusal Progress :=
  if p.trailing then .error (.fault .unknownArgument)
  else
    match arg.toList with
    | ['-', '-'] => .ok { p with trailing := true }
    | '-' :: '-' :: text => p.long (splitLong text).1 (splitLong text).2
    | '-' :: name :: rest => p.short name rest
    | _ => p.plain arg

def finish (p : Progress) : Except Refusal CommandLine := do
  let p ← p.settle
  let blank : CommandLine := {}
  return { config := p.config.getD blank.config, chunk := p.chunk, hex := p.hex }

end Progress

/-- Reads a command line without the program's own name. -/
def parse (args : List String) : Except Refusal CommandLine := do
  (← args.foldlM Progress.read {}).finish

def usage : String :=
  "补丁引擎工具：检查配置并解码会话中的补丁数据块\n\n"
    ++ "  -c, --config <CONFIG>  配置文件路径 [default: " ++ Config.shippedPath ++ "]\n"
    ++ "      --chunk <CHUNK>    导出的补丁数据块文件\n"
    ++ "      --hex              同时输出数据块原始字节\n"
    ++ "  -h, --help\n"
    ++ "  -V, --version\n"

def versionText : String := "trap-hooks 0.1.0\n"

end CommandLine

end TrapHooks
