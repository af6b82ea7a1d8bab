import MitosNetwork.Common.Text
import MitosNetwork.Errors.Error

/-!
# Rendering and loading the rule set

The zones and rules of `src/firewall/zones.rs` and `src/firewall/rules.rs` (a rule belongs to a zone
by its name), and `src/firewall/nftables.rs`. The lines that the loop over the zones writes into the
input chain are kept as data (`InputLine`) next to their text, so that one can speak about the chain
that was written and about the text that nft is given.

`apply` runs two commands: `nft delete table`, whose outcome is ignored, and `nft -f -`, which loads
the whole text or leaves the kernel as it is. `Live` is the kernel's `inet mitos_network` table by
the text it was loaded from.
-/

namespace MitosNetwork.Firewall

inductive DefaultPolicy where
  /-- Allow everything not explicitly blocked. -/
  | accept
  /-- Drop everything not explicitly allowed. -/
  | drop
deriving DecidableEq

@[ext] structure Zone where
  name : String
  defaultPolicy : DefaultPolicy
  interfaces : List String
deriving DecidableEq

/-- `builtin_zones`. -/
def builtinZones : List Zone :=
  [⟨"public", .drop, []⟩, ⟨"home", .drop, []⟩, ⟨"trusted", .accept, []⟩, ⟨"block", .drop, []⟩]

/-- `DEFAULT_ZONE`. -/
def defaultZone : String := "public"

inductive Direction where
  | inbound
  | outbound
deriving DecidableEq

inductive Action where
  | accept
  | drop
  | reject
deriving DecidableEq

inductive Protocol where
  | tcp
  | udp
  | icmp
deriving DecidableEq

/-- `Protocol::nft_name`. -/
def Protocol.nftName : Protocol → String
  | tcp => "tcp"
  | udp => "udp"
  | icmp => "icmp"

/-- A port, or an inclusive range when `stop` is given. -/
structure PortSpec where
  start : UInt16
  stop : Option UInt16
deriving DecidableEq

/-- `PortSpec::nft_expr`. -/
def PortSpec.nftExpr (p : PortSpec) : String :=
  match p.stop with
  | some stop => toString p.start.toNat ++ "-" ++ toString stop.toNat
  | none => toString p.start.toNat

structure Rule where
  id : String
  zone : String
  direction : Direction
  action : Action
  protocol : Option Protocol
  port : Option PortSpec
  source : Option String
deriving DecidableEq

/-- `Rule::allow_inbound_port`. -/
def Rule.allowInboundPort (id zone : String) (protocol : Protocol) (port : UInt16) : Rule :=
  ⟨id, zone, .inbound, .accept, some protocol, some ⟨port, none⟩, none⟩

/-! ## Rendering -/

def tableName : String := "mitos_network"

/-- `nft_action`. -/
def nftAction : Action → String
  | .accept => "accept"
  | .drop => "drop"
  | .reject => "reject"

/-- The port of `render_rule`, after its protocol. -/
def portExpr : Option PortSpec → String
  | some port => " dport " ++ port.nftExpr ++ " "
  | none => " "

/-- The protocol of `render_rule`. A port counts only next to a protocol. -/
def protocolExpr (rule : Rule) : String :=
  match rule.protocol with
  | some proto => proto.nftName ++ portExpr rule.port
  | none => ""

/-- The source of `render_rule`. -/
def sourceExpr : Option String → String
  | some src => "ip saddr " ++ src ++ " "
  | none => ""

/-- The match expression of `render_rule`, without the action. -/
def renderExpr (rule : Rule) : String := protocolExpr rule ++ sourceExpr rule.source

/-- `render_rule`. -/
def renderRule (rule : Rule) : String := renderExpr rule ++ nftAction rule.action

/-! ## The input chain -/

/-- One line written for a zone: its interfaces and the rule, or none for the blanket accept. -/
structure InputLine where
  interfaces : List String
  rule : Option Rule
deriving DecidableEq

/-- The rules of a zone that concern the input chain, in stored order. -/
def inboundRules (rules : List Rule) (zone : Zone) : List Rule :=
  rules.filter fun r => r.zone = zone.name ∧ r.direction = .inbound

/-- The lines of one zone: the blanket accept of an accepting zone, then its rules. -/
def zoneLines (rules : List Rule) (zone : Zone) : List InputLine :=
  if zone.interfaces.isEmpty then []
  else
    (if zone.defaultPolicy = .accept then [⟨zone.interfaces, none⟩] else []) ++
      (inboundRules rules zone).map fun r => ⟨zone.interfaces, some r⟩

def inputLines (zones : List Zone) (rules : List Rule) : List InputLine :=
  zones.flatMap (zoneLines rules)

/-- The quoted names of a set, separated by commas. -/
def ifaceSet (interfaces : List String) : String :=
  ", ".intercalate (interfaces.map fun i => "\"" ++ i ++ "\"")

def InputLine.text (line : InputLine) : String :=
  "        iifname \x7b " ++ ifaceSet line.interfaces ++ " \x7d " ++
    (match line.rule with
      | some r => renderRule r
      | none => "accept") ++ "\n"

/-! ## The whole rule set -/

def forwardText (pair : String × String) : String :=
  "        iifname \"" ++ pair.1 ++ "\" oifname \"" ++ pair.2 ++ "\" accept\n"

def outputText (rule : Rule) : String := "        " ++ renderRule rule ++ "\n"

def masqueradeText (iface : String) : String := "        oifname \"" ++ iface ++ "\" masquerade\n"

/-- The text before the lines of the zones. -/
def inputHeader : String :=
  "# Generated by mitos-network. Do not edit by hand --\n" ++
  "# changes here are overwritten on the next firewall reload.\n" ++
  ("table inet " ++ tableName ++ " \x7b\n") ++
  "    chain input \x7b\n" ++
  "        type filter hook input priority 0; policy drop;\n" ++
  "        ct state established,related accept\n" ++
  "        ct state invalid drop\n" ++
  "        iifname \"lo\" accept\n"

def forwardHeader : String :=
  "    \x7d\n\n" ++
  "    chain forward \x7b\n" ++
  "        type filter hook forward priority 0; policy drop;\n" ++
  "        ct state established,related accept\n"

def outputHeader : String :=
  "    \x7d\n\n" ++
  "    chain output \x7b\n" ++
  "        type filter hook output priority 0; policy accept;\n"

def postroutingText (masqueradeInterfaces : List String) : String :=
  if masqueradeInterfaces.isEmpty then ""
  else
    "\n    chain postrouting \x7b\n" ++
    "        type nat hook postrouting priority 100;\n" ++
    String.join (masqueradeInterfaces.map masqueradeText) ++
    "    \x7d\n"

/-- `render`. -/
def render (zones : List Zone) (rules : List Rule) (masqueradeInterfaces : List String)
    (forwardPairs : List (String × String)) : String :=
  inputHeader ++
  String.join ((inputLines zones rules).map InputLine.text) ++
  forwardHeader ++
  String.join (forwardPairs.map forwardText) ++
  outputHeader ++
  String.join ((rules.filter fun r => r.direction = .outbound).map outputText) ++
  "    \x7d\n" ++
  postroutingText masqueradeInterfaces ++
  "\x7d\n"

/-! ## Loading -/

/-- The kernel's table, by the text it was loaded from. -/
abbrev Live := Option String

/-- What becomes of `nft -f -`. When waiting for the process fails, it may have loaded the text or
not. -/
inductive NftOutcome where
  | loaded
  | spawnFailed (error : String)
  | waitFailed (error : String) (wasLoaded : Bool)
  | rejected (status stderr : String)
deriving DecidableEq

/-- Whether the text ends up in the kernel. -/
def NftOutcome.loads : NftOutcome → Bool
  | .loaded => true
  | .waitFailed _ wasLoaded => wasLoaded
  | .spawnFailed _ | .rejected _ _ => false

/-- The result of `apply`. -/
def NftOutcome.result : NftOutcome → Result Unit
  | .loaded => .ok ()
  | .spawnFailed e | .waitFailed e _ => .error (.firewall ("failed to run nft: " ++ e))
  | .rejected status stderr =>
    .error (.firewall ("nft -f exited with " ++ status ++ ": " ++ Text.trim stderr))

theorem NftOutcome.eq_loaded_of_result {outcome : NftOutcome} (h : outcome.result = .ok ()) :
    outcome = .loaded := by
  cases outcome with
  | loaded => rfl
  | spawnFailed e | waitFailed e wasLoaded | rejected status stderr => cases h

/-- `nft delete table inet mitos_network`, whose status is ignored. -/
def deleteTable (_ : Live) : Live := none

/-- `nft -f -`: the whole text or nothing. -/
def loadRuleset (ruleset : String) (outcome : NftOutcome) (live : Live) : Live :=
  if outcome.loads then some ruleset else live

/-- `apply`: the result and the live table afterwards. -/
def applyRuleset (ruleset : String) (outcome : NftOutcome) (live : Live) : Result Unit × Live :=
  (outcome.result, loadRuleset ruleset outcome (deleteTable live))

end MitosNetwork.Firewall
