import MitosNetwork.Manager.Outside

/-!
# resolv.conf

`apply_to` of `src/dns/resolver.rs`: the text it writes, and what the calls of it in a log leave in
a file. A write that fails leaves the file as it was, since renaming comes last.
-/

namespace MitosNetwork.Resolver

variable {file : Option String} {path : String}

def header : String :=
  "# Managed by mitos-network -- changes here will be overwritten.\n" ++
  "# Edit /etc/mitos-network/dns.toml instead.\n"

/-- The text that `apply_to` writes. -/
def render (servers : List IpAddr) (search : List String) : String :=
  header ++ (if search.isEmpty then "" else "search " ++ String.intercalate " " search ++ "\n") ++
    String.join (servers.map fun s => "nameserver " ++ s.display ++ "\n")

/-- A call of `apply_to` and its outcome. -/
structure Write where
  path : String
  servers : List IpAddr
  search : List String
  outcome : Result Unit
deriving DecidableEq

variable {N : Type}

/-- The call of `apply_to` in an entry, if it is one. -/
def writesOf : Entry Call.Answer N → List Write
  | .call (.writeResolvConf path servers search) outcome => [⟨path, servers, search, outcome⟩]
  | _ => []

/-- The calls of `apply_to` in a log. -/
def writes (log : List (Entry Call.Answer N)) : List Write := log.flatMap writesOf

variable (path : String)

def Write.apply (file : Option String) (write : Write) : Option String :=
  if write.path = path ∧ write.outcome.isOk then some (render write.servers write.search) else file

def Write.list (servers : List IpAddr) (write : Write) : List IpAddr :=
  if write.path = path ∧ write.outcome.isOk then write.servers else servers

def nameservers (servers : List IpAddr) (log : List (Entry Call.Answer N)) : List IpAddr :=
  (writes log).foldl (Write.list path) servers

@[simp] theorem writes_append (log log' : List (Entry Call.Answer N)) :
    writes (log ++ log') = writes log ++ writes log' := List.flatMap_append

variable {path} {log : List (Entry Call.Answer N)}

theorem nameservers_eq {servers : List IpAddr}
    (h : ∀ write ∈ writes log, write.path = path ∧ write.outcome = .ok ()) :
    nameservers path servers log = ((writes log).map (·.servers)).getLast?.getD servers := by
  unfold nameservers
  revert h
  induction writes log generalizing servers with
  | nil => exact fun _ => rfl
  | cons write rest ih =>
    intro h
    obtain ⟨hpath, hok⟩ := h write List.mem_cons_self
    have hlist : write.list path servers = write.servers := if_pos ⟨hpath, congrArg Except.isOk hok⟩
    rw [List.foldl_cons, hlist, ih fun write' hmem => h write' (List.mem_cons_of_mem _ hmem),
      List.map_cons, List.getLast?_cons, Option.getD_some]

theorem writes_singleton {c : Call}
    (h : ∀ path servers search, c ≠ .writeResolvConf path servers search) (a : c.Answer) :
    writes [(.call c a : Entry Call.Answer N)] = [] := by
  cases c with
  | writeResolvConf path servers search => exact absurd rfl (h path servers search)
  | _ => rfl

theorem writesOf_liftEntry (e : Entry Call.Answer Empty) :
    writesOf (Proc.liftEntry e : Entry Call.Answer N) = writesOf e := by
  cases e with
  | note n => exact n.elim
  | call c a => cases c <;> rfl

theorem writes_map_liftEntry (log : List (Entry Call.Answer Empty)) :
    writes (log.map Proc.liftEntry : List (Entry Call.Answer N)) = writes log := by
  rw [writes, List.flatMap_map]
  exact congrArg (List.flatMap · log) (funext writesOf_liftEntry)

end MitosNetwork.Resolver
