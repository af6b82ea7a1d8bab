import MitosNetwork.Proxy.Pac

/-!
# Global variables of PAC scripts

The reference semantics, in which function bodies see the globals that the top-level statements of
the script have set, against what the interpreter does. The interpreter answers every read outside a
function's own scope with `Null`, at every depth of calls. Both are runs of the same `Query` in two
environments, so they can part only at such a read.
-/

namespace MitosNetwork.Pac

variable {ν : Type}

/-- What a function body reads outside its scope when it sees the globals. -/
def seeded (globals : Scope ν) : String → Value ν := fun g => (globals.lookup g).getD .null

/-- The names that the run for a URL reads outside the scope of the function it is in, each with the
value that was read. -/
def outerReads [Double ν] (sys : System) (p : Program ν) (url host : String)
    (outer : String → Value ν) : List (String × Value ν) :=
  ((findProxy sys p url host).asked outer).map fun g => (g, outer g)

/-- `evaluate` with function bodies that see the globals. -/
def evaluateReference [Double ν] (sys : System) (p : Program ν) (url host : String) :
    Result String := do
  if (p.functions.lookup "FindProxyForURL").isNone then
    throw (.other "PAC script has no FindProxyForURL function")
  let globals ← globalsOf sys p
  let result ← (findProxy sys p url host).result (seeded globals)
  return result.directive

section Comparison

variable [Double ν] {sys : System} {p : Program ν} {url host : String} {globals : Scope ν}

theorem run_seeded_eq (h : ∀ g ∈ (findProxy sys p url host).asked (seeded globals),
      ∀ v, globals.lookup g = some v → v = .null) :
    (findProxy sys p url host).run (seeded globals) =
      (findProxy sys p url host).run unboundNull := by
  refine (findProxy sys p url host).depends _ _ fun g hg => ?_
  unfold seeded unboundNull
  cases hlk : globals.lookup g with
  | none => rfl
  | some v => exact h g hg v hlk

theorem run_unboundNull_eq (h : ∀ r ∈ outerReads sys p url host unboundNull,
      ∀ v, globals.lookup r.1 = some v → r.2 = v) :
    (findProxy sys p url host).run unboundNull =
      (findProxy sys p url host).run (seeded globals) := by
  refine (findProxy sys p url host).depends _ _ fun g hg => ?_
  have hread := h (g, .null) (List.mem_map_of_mem hg)
  unfold seeded unboundNull
  cases hlk : globals.lookup g with
  | none => rfl
  | some v => exact hread v hlk

theorem evaluateReference_eq (hglo : globalsOf sys p = .ok globals)
    (h : (findProxy sys p url host).run unboundNull =
      (findProxy sys p url host).run (seeded globals)) :
    evaluateProgram sys p url host = evaluateReference sys p url host := by
  unfold evaluateProgram evaluateReference Query.result
  rw [hglo, h]
  rfl

/-- **When PAC functions see the globals.** Every read of a global inside the functions that the run
calls yields its value, and the run agrees with the reference semantics, if and only if every global
that the reference run reads there has the value `Null`. -/
theorem globals_visible_iff (sys : System) (p : Program ν) (url host : String) (globals : Scope ν)
    (hglobals : globalsOf sys p = .ok globals) :
    ((∀ r ∈ outerReads sys p url host unboundNull,
        ∀ v, globals.lookup r.1 = some v → r.2 = v) ∧
      evaluateProgram sys p url host = evaluateReference sys p url host) ↔
    ∀ r ∈ outerReads sys p url host (seeded globals),
      ∀ v, globals.lookup r.1 = some v → v = .null := by
  constructor
  · rintro ⟨hreads, -⟩ r hr v hv
    obtain ⟨g, hg, rfl⟩ := List.mem_map.mp hr
    rw [Query.asked, ← run_unboundNull_eq hreads] at hg
    exact (hreads (g, .null) (List.mem_map_of_mem hg) v hv).symm
  · intro hnull
    have hrun := run_seeded_eq fun g hg v hv => hnull (g, _) (List.mem_map_of_mem hg) v hv
    refine ⟨fun r hr v hv => ?_, evaluateReference_eq hglobals hrun.symm⟩
    obtain ⟨g, hg, rfl⟩ := List.mem_map.mp hr
    rw [Query.asked, ← hrun] at hg
    exact (hnull (g, _) (List.mem_map_of_mem hg) v hv).symm

end Comparison

/-! ## Running scripts -/

/-- The integers among the doubles, with a NaN: enough for scripts whose numbers are small
integers. -/
abbrev IntDouble := Option ℤ

instance : Double IntDouble where
  ofNat n := some n
  nan := none
  add a b := a.bind fun x => b.map fun y => x + y
  eq a b := a.isSome && a == b
  lt a b := match a, b with
    | some x, some y => x < y
    | _, _ => false
  le a b := match a, b with
    | some x, some y => x ≤ y
    | _, _ => false
  parse s := (Text.digitsValue 10 s.toList 0).map fun n => (n : ℤ)
  display a := match a with
    | some x => toString x
    | none => "NaN"
  toU32 a := match a with
    | some x => UInt32.ofNat (min x.toNat 0xFFFFFFFF)
    | none => 0

/-- A system without name resolution at the epoch. -/
def offline : System := ⟨fun _ => none, none, 0⟩

/-- The functions `isInternal` and `FindProxyForURL` of a script that keeps its proxy in a global.
-/
def backupFunctions : Table String (FunctionDecl IntDouble) :=
  ((∅ : Table String (FunctionDecl IntDouble)).insert "isInternal"
    ⟨["host"],
      [.ret (some (.call "dnsDomainIs" [.ident "host", .str ".corp.example.com"]))]⟩).insert
    "FindProxyForURL" ⟨["url", "host"],
      [.ifElse (.call "isInternal" [.ident "host"]) [.ret (some (.str "DIRECT"))] [],
        .ret (some (.ident "backup"))]⟩

/-- The script of the test `helper_functions_and_variables`. -/
def backupScript : Program IntDouble :=
  ⟨backupFunctions, [.varDecl "backup" (some (.str "PROXY backup.example.com:8080"))]⟩

/-- An internal host never reaches the global, so both semantics agree on it. -/
theorem globals_visible_internal :
    globalsOf offline backupScript =
        .ok ((∅ : Scope IntDouble).insert "backup" (.str "PROXY backup.example.com:8080")) ∧
      evaluateProgram offline backupScript "x" "db.corp.example.com" =
        evaluateReference offline backupScript "x" "db.corp.example.com" := by
  have hglobals : globalsOf offline backupScript =
      .ok ((∅ : Scope IntDouble).insert "backup" (.str "PROXY backup.example.com:8080")) := by rfl
  refine ⟨hglobals, ((globals_visible_iff offline backupScript "x" "db.corp.example.com" _
    hglobals).mpr ?_).2⟩
  exact fun r hr => (nomatch hr)

/-- For any other host the script reads `Null` where the global holds the proxy, and the answer is
to connect directly. -/
theorem globals_invisible_backup :
    globalsOf offline backupScript =
        .ok ((∅ : Scope IntDouble).insert "backup" (.str "PROXY backup.example.com:8080")) ∧
      outerReads offline backupScript "x" "example.com" unboundNull = [("backup", .null)] ∧
      evaluateProgram offline backupScript "x" "example.com" = .ok "DIRECT" ∧
      evaluateReference offline backupScript "x" "example.com" =
        .ok "PROXY backup.example.com:8080" := by
  refine ⟨rfl, ?_, ?_, ?_⟩ <;> decide +kernel

end MitosNetwork.Pac
