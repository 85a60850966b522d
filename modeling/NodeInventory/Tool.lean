import NodeInventory.Banner.Rule

/-!
# The registered tools

Each tool has a canonical name, a command that makes it print its version, and a rule that reads
the answer.
-/

namespace NodeInventory

open Banner

inductive Tool
  | rkt | hyperkube | etcd | iproute2 | vault | systemd | kernel | fleetd | haproxy | socat
deriving DecidableEq, Repr

/-- A program and its arguments. -/
structure Invocation where
  program : String
  args : List String
deriving DecidableEq, Repr

def Invocation.text (invocation : Invocation) : String :=
  invocation.args.foldl (fun text arg => text ++ " " ++ arg) invocation.program

namespace Tool

/-- Every tool, in registration order. -/
def all : List Tool :=
  [rkt, hyperkube, etcd, iproute2, vault, systemd, kernel, fleetd, haproxy, socat]

theorem mem_all (tool : Tool) : tool ∈ all := by cases tool <;> decide

theorem nodup_all : all.Nodup := by decide

def name : Tool → String
  | rkt => "rkt"
  | hyperkube => "hyperkube"
  | etcd => "etcd"
  | iproute2 => "iproute2"
  | vault => "vault"
  | systemd => "systemd"
  | kernel => "kernel"
  | fleetd => "fleetd"
  | haproxy => "haproxy"
  | socat => "socat"

theorem name_injective {s t : Tool} (h : s.name = t.name) : s = t := by
  revert h
  cases s <;> cases t <;> decide

end Tool

/-- How a tool is asked for its version and how its answer is read. -/
structure Entry where
  tool : Tool
  invocation : Invocation
  line : LineSelector
  token : TokenSelector
deriving DecidableEq, Repr

def Entry.rule (entry : Entry) : Rule := ⟨entry.tool.name, entry.line, entry.token⟩

/-- One entry per tool, in registration order. -/
def registry : List Entry :=
  [⟨.rkt, ⟨"rkt", ["version"]⟩, .first, .after "Version:"⟩,
   ⟨.hyperkube, ⟨"hyperkube", ["--version"]⟩, .contains "Kubernetes", .after "Kubernetes"⟩,
   ⟨.etcd, ⟨"etcd", ["--version"]⟩, .contains "etcd Version:", .after "Version:"⟩,
   ⟨.iproute2, ⟨"ip", ["-V"]⟩, .contains "ip utility", .after "ip utility,"⟩,
   ⟨.vault, ⟨"vault", ["--version"]⟩, .contains "Vault", .after "Vault"⟩,
   ⟨.systemd, ⟨"systemctl", ["--version"]⟩, .startsWith "systemd ", .after "systemd"⟩,
   ⟨.kernel, ⟨"uname", ["-r"]⟩, .first, .field 0⟩,
   ⟨.fleetd, ⟨"fleetd", ["--version"]⟩, .contains "fleetd version", .after "version"⟩,
   ⟨.haproxy, ⟨"haproxy", ["-v"]⟩, .contains "Proxy version", .after "version"⟩,
   ⟨.socat, ⟨"socat", ["-V"]⟩, .contains "socat version", .after "socat version"⟩]

namespace Tool

/-- The place of a tool in the registration order. -/
def position (tool : Tool) : Nat := tool.ctorIdx

theorem position_lt (tool : Tool) : tool.position < registry.length := by cases tool <;> decide

def entry (tool : Tool) : Entry := registry.get ⟨tool.position, tool.position_lt⟩

def invocation (tool : Tool) : Invocation := tool.entry.invocation

def rule (tool : Tool) : Rule := tool.entry.rule

/-- Further names a tool goes by. -/
def aliases : Tool → List String
  | hyperkube => ["kubernetes"]
  | iproute2 => ["ip"]
  | _ => []

def goesBy (name : String) (tool : Tool) : Bool := tool.name == name || tool.aliases.contains name

/-- The spelling under which an identifier is looked up. -/
def canonical (id : String) : String := String.ofList (Text.lower (Text.trim id.toList))

def ofId? (id : String) : Except InventoryError Tool :=
  match all.find? (goesBy (canonical id)) with
  | some tool => .ok tool
  | none => .error (.notRegistered id)

end Tool

end NodeInventory
