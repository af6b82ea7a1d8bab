import MitosNetwork.Common.Shell
import MitosNetwork.Manager.Services

/-!
# The shell script of the manual mode

`apply_inner` puts the configured values between double quotes as a client sent them, into a script
that every login shell reads. `script_read_iff` says for which configurations the shell reads it as
the assignments that were meant.
-/

namespace MitosNetwork.Proxy

open List

/-- The variables that a configuration sets, with their values. -/
def settings (cfg : ProxyConfig) : List (String × String) :=
  ([("http_proxy", cfg.http), ("https_proxy", cfg.https), ("ftp_proxy", cfg.ftp),
      ("all_proxy", cfg.socks)].filterMap fun (var, value) => value.map (var, ·)) ++
    if cfg.noProxy.isEmpty then [] else [("no_proxy", ",".intercalate cfg.noProxy)]

/-- The assignments of one variable, in lower and in upper case. -/
def assignmentsOf (setting : String × String) : List (List Char × List Char) :=
  [(setting.1.toList, setting.2.toList), (setting.1.toUpper.toList, setting.2.toList)]

def assignments (cfg : ProxyConfig) : List (List Char × List Char) :=
  (settings cfg).flatMap assignmentsOf

def scriptsIn (log : List (Entry Call.Answer Empty)) : List String :=
  log.filterMap fun
    | .call (.writeProxyScript text) _ => some text
    | _ => none

theorem toList_line (var value : String) :
    ("export " ++ var ++ "=\"" ++ value ++ "\"\n").toList =
      Shell.line (var.toList, value.toList) := by
  simp only [String.toList_append, append_assoc]
  rfl

theorem toList_exportLines (var value : String) :
    (exportLines var value).toList = (assignmentsOf (var, value)).flatMap Shell.line := by
  -- stated for variables: `String.append_assoc` is slow to unify with the literals
  have hassoc : ∀ line start upper mid value stop : String,
      line ++ start ++ upper ++ mid ++ value ++ stop =
        line ++ (start ++ upper ++ mid ++ value ++ stop) := by
    intros
    simp only [String.append_assoc]
  have hsp : exportLines var value = ("export " ++ var ++ "=\"" ++ value ++ "\"\n") ++
      ("export " ++ var.toUpper ++ "=\"" ++ value ++ "\"\n") := hassoc _ _ _ _ _ _
  rw [hsp, String.toList_append, toList_line, toList_line]
  simp only [assignmentsOf, flatMap_cons, flatMap_nil, append_nil]

theorem toList_join_exportLines {text : String × Option String → String}
    (hsome : ∀ var v, text (var, some v) = exportLines var v) (hnone : ∀ var, text (var, none) = "")
    (vars : List (String × Option String)) :
    (String.join (vars.map text)).toList =
      ((vars.filterMap fun (var, value) => value.map (var, ·)).flatMap assignmentsOf).flatMap
        Shell.line := by
  rw [String.toList_join]
  induction vars with
  | nil => rfl
  | cons p vars ih =>
    obtain ⟨var, value⟩ := p
    rw [map_cons, flatMap_cons, ih]
    cases value with
    | none => rw [hnone]; rfl
    | some v =>
      rw [hsome, toList_exportLines, ← flatMap_append]
      rfl

/-- The comment that the script starts with. -/
def header : List Char := " Generated by mitos-network. Do not edit by hand.".toList

theorem toList_script (cfg : ProxyConfig) :
    (script cfg).toList = '#' :: (header ++ '\n' :: (assignments cfg).flatMap Shell.line) := by
  have hhdr : "# Generated by mitos-network. Do not edit by hand.\n".toList =
      '#' :: (header ++ ['\n']) := by decide
  have hnoProxy : (if cfg.noProxy.isEmpty then ""
      else exportLines "no_proxy" (",".intercalate cfg.noProxy)).toList =
      ((if cfg.noProxy.isEmpty then [] else [("no_proxy", ",".intercalate cfg.noProxy)]).flatMap
        assignmentsOf).flatMap Shell.line := by
    split
    · rfl
    · rw [toList_exportLines, flatMap_singleton]
  unfold script
  rw [String.toList_append, String.toList_append, hhdr,
    toList_join_exportLines (fun _ _ => rfl) (fun _ => rfl), hnoProxy, assignments, settings,
    flatMap_append, flatMap_append, cons_append, cons_append,
    append_assoc, append_assoc, singleton_append]

theorem var_mem_of_mem_settings {cfg : ProxyConfig} {s : String × String} (h : s ∈ settings cfg) :
    s.1 ∈ ["http_proxy", "https_proxy", "ftp_proxy", "all_proxy", "no_proxy"] := by
  rcases mem_append.mp h with h | h
  · obtain ⟨p, hp, hval⟩ := mem_filterMap.mp h
    obtain ⟨value, -, rfl⟩ := Option.map_eq_some_iff.mp hval
    exact mem_append_left ["no_proxy"] (mem_map_of_mem (f := Prod.fst) hp)
  · split at h
    · cases h
    · rw [mem_singleton.mp h]
      exact mem_of_getLast? rfl

theorem isName_of_mem_assignments {cfg : ProxyConfig} {a : List Char × List Char}
    (h : a ∈ assignments cfg) : Shell.isName a.1 = true := by
  have hns : ∀ var ∈ ["http_proxy", "https_proxy", "ftp_proxy", "all_proxy", "no_proxy"],
      Shell.isName var.toList = true ∧
        Shell.isName (var.toList.map Char.toUpper) = true := by decide
  obtain ⟨s, hs, ha⟩ := mem_flatMap.mp h
  obtain ⟨hlow, hupper⟩ := hns s.1 (var_mem_of_mem_settings hs)
  rcases mem_pair.mp ha with rfl | rfl
  · exact hlow
  · rwa [← String.toList_map] at hupper

theorem scriptsIn_apply {cfg : ProxyConfig} (h : cfg.mode = .manual) (w : World Call.Answer) (k : ℕ)
    (st : ProxyState) : scriptsIn ((apply cfg) w k st).log = [script cfg] := by
  have hwrite : (applyInner cfg).run w k { st with active := some cfg } =
      ⟨w k (.writeProxyScript (script cfg)), { st with active := some cfg, pacCache := none },
        [.call (.writeProxyScript (script cfg)) (w k (.writeProxyScript (script cfg)))]⟩ := by
    rw [applyInner, h]
    rfl
  unfold apply
  rw [Proc.modify_bind, Proc.bind_apply hwrite]
  cases (w k (.writeProxyScript (script cfg)) : Result Unit) <;> rfl

/-- In manual mode one script is written, and the shell reads it as the assignments of the
configured values if and only if every value is inert between double quotes. -/
theorem script_read_iff {cfg : ProxyConfig} (h : cfg.mode = .manual) (w : World Call.Answer) (k : ℕ)
    (st : ProxyState) :
    (scriptsIn ((apply cfg) w k st).log).map (fun text => Shell.read text.toList) =
        [some (assignments cfg)] ↔
      ∀ s ∈ settings cfg, Shell.isInert false s.2.toList = true := by
  rw [scriptsIn_apply h, map_singleton, singleton_inj, toList_script,
    Shell.read_comment_lines_iff (by decide) fun _ => isName_of_mem_assignments]
  rw [assignments, forall_mem_flatMap]
  refine forall₂_congr fun s _ => ?_
  rw [assignmentsOf, forall_mem_cons, forall_mem_singleton, and_self]

def plainConfig : ProxyConfig :=
  { mode := .manual, http := some "http://proxy:3128", https := none, ftp := none, socks := none,
    noProxy := ["localhost", "10.0.0.1"], pacUrl := none }

theorem script_read_plainConfig :
    (∀ s ∈ settings plainConfig, Shell.isInert false s.2.toList = true) ∧
      ∀ (w : World Call.Answer) k st,
        (scriptsIn ((apply plainConfig) w k st).log).map (fun text => Shell.read text.toList) =
          [some (assignments plainConfig)] := by
  have hinert : ∀ s ∈ settings plainConfig, Shell.isInert false s.2.toList = true := by
    decide +kernel
  exact ⟨hinert, fun w k st => (script_read_iff rfl w k st).mpr hinert⟩

/-- A value with a command substitution is not read as it stands. -/
theorem script_not_read : ∃ cfg : ProxyConfig, cfg.mode = .manual ∧ cfg.http = some "$(id)" ∧
    ∀ (w : World Call.Answer) k st,
      (scriptsIn ((apply cfg) w k st).log).map (fun text => Shell.read text.toList) = [none] := by
  refine ⟨⟨.manual, some "$(id)", none, none, none, [], none⟩, rfl, rfl, fun w k st => ?_⟩
  rw [scriptsIn_apply rfl]
  decide +kernel

end MitosNetwork.Proxy
