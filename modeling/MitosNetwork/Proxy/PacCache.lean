import MitosNetwork.Manager.Services

/-!
# The cached PAC script

`apply` makes the new configuration the active one before it does anything else, and writes the
cache only at the end, or in the modes that need none. An `apply` in automatic mode that fails on
the way therefore leaves the script of an earlier configuration in the cache, and `resolve_for_url`
goes on with it. `cache_owned_iff` says when that does not happen over a sequence of calls.
-/

namespace MitosNetwork.Proxy

/-! ## One call in automatic mode -/

/-- How a call of `apply` in automatic mode ends. -/
inductive AutoOutcome where
  | scriptKept
  | noUrl
  | notFetched
  | invalid (url script : String)
  | cached (url script : String)
deriving DecidableEq

def AutoOutcome.ofCheck (url script : String) : Result String → AutoOutcome
  | .error _ => .invalid url script
  | .ok _ => .cached url script

def fetchOutcome (url : String) (w : World Call.Answer) : AutoOutcome :=
  match (w 1 (.fetchPac url) : Result String) with
  | .error _ => .notFetched
  | .ok script =>
    .ofCheck url script (w 2 (.evaluatePac script "http://example.com/" "example.com"))

/-- The outcome by the answers of the outside: the old shell script has to be removed, the PAC
script to be fetched and to be valid. -/
def autoOutcome (pacUrl : Option String) (w : World Call.Answer) : AutoOutcome :=
  match cleared (w 0 .removeProxyScript) with
  | .error _ => .scriptKept
  | .ok () => pacUrl.elim .noUrl fun url => fetchOutcome url w

namespace AutoOutcome

def isPacFailure : AutoOutcome → Bool
  | notFetched => true
  | invalid _ _ => true
  | _ => false

def cache (before : Option String) : AutoOutcome → Option String
  | noUrl => none
  | cached _ script => some script
  | _ => before

def fetched : AutoOutcome → List (String × String)
  | invalid url script => [(url, script)]
  | cached url script => [(url, script)]
  | _ => []

theorem fetched_ofCheck (url script : String) (answer : Result String) :
    (ofCheck url script answer).fetched = [(url, script)] := by
  cases answer <;> rfl

theorem cache_of_isPacFailure {outcome : AutoOutcome} (h : outcome.isPacFailure = true)
    (before : Option String) : outcome.cache before = before := by
  cases outcome <;> first | rfl | cases h

end AutoOutcome

theorem url_of_cached {pacUrl : Option String} {w : World Call.Answer} {url script : String}
    (h : autoOutcome pacUrl w = .cached url script) : pacUrl = some url := by
  unfold autoOutcome at h
  split at h
  · cases h
  · cases pacUrl with
    | none => cases h
    | some url' =>
      rw [Option.elim_some, fetchOutcome] at h
      split at h
      · cases h
      · unfold AutoOutcome.ofCheck at h
        split at h
        · cases h
        · cases h
          rfl

def fetchedOf : Entry Call.Answer Empty → List (String × String)
  | .call (.fetchPac url) answer => ((answer : Result String).toOption.map (url, ·)).toList
  | _ => []

def fetchedIn (log : List (Entry Call.Answer Empty)) : List (String × String) :=
  log.flatMap fetchedOf

variable {cfg : ProxyConfig} {w : World Call.Answer} {st : ProxyState}

theorem run_checked (st : ProxyState) (url script : String) (answer : Result String) (k : ℕ) :
    (do
      attempt (pure (checked url answer))
      setPacCache (some script) : TryProg ProxyState Unit).run w k st =
      ⟨checked url answer,
        { st with pacCache := (AutoOutcome.ofCheck url script answer).cache st.pacCache }, []⟩ := by
  cases answer <;> rfl

theorem applyAuto_some (url : String) :
    ((applyAuto (some url)).run w 1 st).state =
        { st with pacCache := (fetchOutcome url w).cache st.pacCache } ∧
      fetchedIn ((applyAuto (some url)).run w 1 st).log = (fetchOutcome url w).fetched := by
  have hfet : (attempt (call (.fetchPac url)) : TryProg ProxyState String).run w 1 st =
      ⟨w 1 (.fetchPac url), st, [.call (.fetchPac url) (w 1 (.fetchPac url))]⟩ := rfl
  unfold applyAuto fetchOutcome
  cases hans : (w 1 (.fetchPac url) : Result String) with
  | error e =>
    rw [hans] at hfet
    rw [Try.run_bind_of_error hfet]
    exact ⟨rfl, rfl⟩
  | ok script =>
    rw [hans] at hfet
    rw [Try.run_bind_of_ok hfet]
    have hrest := run_checked (w := w) st url script
      (w 2 (.evaluatePac script "http://example.com/" "example.com")) 3
    refine ⟨congrArg Ran.state hrest, Eq.trans ?_ (AutoOutcome.fetched_ofCheck url script _).symm⟩
    exact congrArg (fun log => fetchedIn (.call (.fetchPac url) (Except.ok script) ::
      .call (.evaluatePac script "http://example.com/" "example.com") (w 2 _) :: log))
      (congrArg Ran.log hrest)

theorem applyInner_auto (h : cfg.mode = .auto) :
    ((applyInner cfg).run w 0 st).state =
        { st with pacCache := (autoOutcome cfg.pacUrl w).cache st.pacCache } ∧
      fetchedIn ((applyInner cfg).run w 0 st).log = (autoOutcome cfg.pacUrl w).fetched := by
  have hclr : clear.run w 0 st = ⟨cleared (w 0 .removeProxyScript), st,
      [.call .removeProxyScript (w 0 .removeProxyScript)]⟩ := rfl
  have hinn : applyInner cfg = clear >>= fun _ => applyAuto cfg.pacUrl := by
    unfold applyInner
    rw [h]
  rw [hinn, ExceptT.run_bind, Proc.bind_apply hclr, autoOutcome]
  cases cleared (w 0 .removeProxyScript) with
  | error e => exact ⟨rfl, rfl⟩
  | ok u =>
    cases cfg.pacUrl with
    | none => exact ⟨rfl, rfl⟩
    | some url => exact applyAuto_some url

theorem fetchedIn_append (log log' : List (Entry Call.Answer Empty)) :
    fetchedIn (log ++ log') = fetchedIn log ++ fetchedIn log' := List.flatMap_append

theorem keeps_active_applyInner (cfg : ProxyConfig) {a : Option ProxyConfig} :
    Try.Keeps w (fun st => st.active = a) (applyInner cfg) := by
  have hca : ∀ cache, Try.Keeps w (fun st => st.active = a) (setPacCache cache) := fun _ =>
    .lift (.modify fun _ hst => hst)
  have hclr : Try.Keeps w (fun st : ProxyState => st.active = a) clear :=
    (Try.Keeps.lift (keeps_call _)).bind fun _ => keeps_attempt (Proc.Keeps.pure _)
  unfold applyInner
  split
  · exact (hca _).bind fun _ => hclr
  · exact (hca _).bind fun _ => keeps_attempt (keeps_call _)
  · refine hclr.bind fun _ => ?_
    unfold applyAuto
    split
    · exact (hca _).bind fun _ => .throw _
    · exact (keeps_attempt (keeps_call _)).bind fun _ => (Try.Keeps.lift (keeps_call _)).bind
        fun _ => (keeps_attempt (.pure _)).bind fun _ => hca _

theorem persist_spec (cfg : ProxyConfig) (st : ProxyState) (result : Result Unit) (k : ℕ) :
    (persist cfg result w k st).state.active = st.active ∧
      (persist cfg result w k st).state.pacCache = st.pacCache ∧
      fetchedIn (persist cfg result w k st).log = [] := by
  cases result with
  | error e => exact ⟨rfl, rfl, rfl⟩
  | ok u =>
    have hst : (persist cfg (.ok u) w k st).state =
        if (w k (.writeProxyConfig cfg) : Result Unit).isOk then { st with stored := some cfg }
        else st := rfl
    rw [hst]
    split <;> exact ⟨rfl, rfl, rfl⟩

theorem apply_spec : ((apply cfg).run w st).state.active = some cfg ∧
    ((apply cfg).run w st).state.pacCache =
      ((applyInner cfg).run w 0 { st with active := some cfg }).state.pacCache ∧
    fetchedIn ((apply cfg).run w st).log =
      fetchedIn ((applyInner cfg).run w 0 { st with active := some cfg }).log := by
  have hact := keeps_active_applyInner cfg (w := w) (a := some cfg) 0
    { st with active := some cfg } rfl
  have happly : (apply cfg).run w st = (do
      let result ← (applyInner cfg).run
      persist cfg result
      return result : Prog ProxyState (Result Unit)) w 0 { st with active := some cfg } := rfl
  generalize hinn : (applyInner cfg).run w 0 { st with active := some cfg } = ran at hact
  rw [happly, Proc.bind_apply hinn]
  obtain ⟨hpactive, hpcache, hpfetched⟩ := persist_spec cfg (w := w) ran.state ran.result
    (0 + ran.log.length)
  refine ⟨hpactive.trans hact, hpcache, ?_⟩
  show fetchedIn (ran.log ++ ((persist cfg ran.result w _ ran.state).log ++ [])) = _
  rw [List.append_nil, fetchedIn_append, hpfetched, List.append_nil]

/-! ## Sequences of calls -/

/-- The statics of the module, and all that was fetched so far. -/
structure PacHistory where
  state : ProxyState
  fetched : List (String × String)

namespace PacHistory

/-- A call of `apply`. -/
def step (h : PacHistory) (i : ProxyConfig × World Call.Answer) : PacHistory × Result Unit :=
  let r := (apply i.1).run i.2 h.state
  (⟨r.state, h.fetched ++ fetchedIn r.log⟩, r.result)

/-- If the active configuration is an automatic one, a cached script was fetched from its URL. -/
def Owned (h : PacHistory) : Prop :=
  ∀ cfg script, h.state.active = some cfg → cfg.mode = .auto → h.state.pacCache = some script →
    ∃ url, cfg.pacUrl = some url ∧ (url, script) ∈ h.fetched

/-- Every URL is answered with `DIRECT`. -/
def Direct (h : PacHistory) : Prop :=
  ∀ url w, ((resolveForUrl url).run w h.state).result = "DIRECT"

/-- The call leaves a cache that is owned, and if fetching or evaluating failed, every URL is
answered with `DIRECT`. -/
def Good (h : PacHistory) (i : ProxyConfig × World Call.Answer) : Prop :=
  (h.step i).1.Owned ∧
    (i.1.mode = .auto → (autoOutcome i.1.pacUrl i.2).isPacFailure = true → (h.step i).1.Direct)

/-- What a call in automatic mode needs: nothing is cached if fetching or evaluating fails, and if
the shell script cannot be removed, nothing but a script from the same URL. -/
def Fits (h : PacHistory) (i : ProxyConfig × World Call.Answer) : Prop :=
  i.1.mode = .auto →
    ((autoOutcome i.1.pacUrl i.2).isPacFailure = true → h.state.pacCache = none) ∧
    (autoOutcome i.1.pacUrl i.2 = .scriptKept → ∀ script, h.state.pacCache = some script →
      ∃ url, i.1.pacUrl = some url ∧ (url, script) ∈ h.fetched)

variable {h : PacHistory} {i : ProxyConfig × World Call.Answer}

theorem active_step : (h.step i).1.state.active = some i.1 := apply_spec.1

theorem pacCache_step (hmode : i.1.mode = .auto) :
    (h.step i).1.state.pacCache = (autoOutcome i.1.pacUrl i.2).cache h.state.pacCache := by
  refine (apply_spec.2.1).trans ?_
  rw [(applyInner_auto hmode).1]

theorem fetched_step (hmode : i.1.mode = .auto) :
    (h.step i).1.fetched = h.fetched ++ (autoOutcome i.1.pacUrl i.2).fetched := by
  refine congrArg (h.fetched ++ ·) ((apply_spec.2.2).trans ?_)
  rw [(applyInner_auto hmode).2]

/-- A machine on which every script has an answer for every URL. -/
def answering : World Call.Answer := fun _ c =>
  match c with
  | .evaluatePac _ _ _ => Except.ok "PROXY proxy.corp.example.com:3128"
  | c => calm [] (.ok ()) c

theorem direct_iff {cfg : ProxyConfig} (hact : h.state.active = some cfg)
    (hmode : cfg.mode = .auto) : h.Direct ↔ h.state.pacCache = none := by
  have hresolve : ∀ url w, ((resolveForUrl url).run w h.state).result =
      (evaluateCached url h.state.pacCache w 0 h.state).result := by
    intro url w
    rw [Proc.run, resolveForUrl, Proc.get_bind]
    simp only [hact, Option.getD_some, hmode]
  constructor
  · intro hdir
    cases hca : h.state.pacCache with
    | none => rfl
    | some script =>
      have hans := hdir "" answering
      rw [hresolve, hca] at hans
      have hproxy : (evaluateCached "" (some script) answering 0 h.state).result =
        "PROXY proxy.corp.example.com:3128" := rfl
      rw [hproxy] at hans
      exact absurd hans (by decide)
  · intro hca url w
    rw [hresolve, hca]
    rfl

theorem owned_step (hmode : i.1.mode = .auto) : (h.step i).1.Owned ↔
    ∀ script, (autoOutcome i.1.pacUrl i.2).cache h.state.pacCache = some script →
      ∃ url, i.1.pacUrl = some url ∧
        (url, script) ∈ h.fetched ++ (autoOutcome i.1.pacUrl i.2).fetched := by
  rw [Owned, active_step, pacCache_step hmode, fetched_step hmode]
  constructor
  · exact fun howned script hca => howned i.1 script rfl hmode hca
  · intro howned cfg script hact _ hca
    cases hact
    exact howned script hca

theorem good_iff : h.Good i ↔ h.Fits i := by
  by_cases hmode : i.1.mode = .auto
  · rw [Good, Fits, owned_step hmode, direct_iff active_step hmode, pacCache_step hmode]
    simp only [hmode, true_implies]
    have hcached : ∀ url script, autoOutcome i.1.pacUrl i.2 = .cached url script →
        i.1.pacUrl = some url := fun url script => url_of_cached
    generalize autoOutcome i.1.pacUrl i.2 = outcome at hcached ⊢
    cases hfai : outcome.isPacFailure with
    | true =>
      -- The cache is as it was, so it has to be empty.
      rw [AutoOutcome.cache_of_isPacFailure hfai]
      constructor
      · exact fun hgood => ⟨hgood.2, fun hkept => by rw [hkept] at hfai; cases hfai⟩
      · intro hfits
        refine ⟨fun script hca => ?_, hfits.1⟩
        rw [hfits.1 rfl] at hca
        cases hca
    | false =>
      cases outcome with
      | scriptKept => simp [AutoOutcome.cache, AutoOutcome.fetched]
      | noUrl => simp [AutoOutcome.cache]
      | notFetched | invalid url script => cases hfai
      | cached url script => simp [AutoOutcome.cache, AutoOutcome.fetched, hcached url script rfl]
  · refine iff_of_true ⟨?_, fun hauto => absurd hauto hmode⟩ fun hauto => absurd hauto hmode
    intro cfg script hact hauto
    rw [active_step] at hact
    cases hact
    exact absurd hauto hmode

/-- **The cache of the active configuration.** Over any sequence of calls of `apply`, whatever
becomes of each fetch, the cached script belongs to the active configuration after each of them, and
after a failed fetch or evaluation every URL is answered with `DIRECT`, if and only if each call
meets the condition. -/
theorem cache_owned_iff (start : PacHistory) (calls : List (ProxyConfig × World Call.Answer)) :
    Machine.AllSteps step Good start calls ↔ Machine.AllSteps step Fits start calls :=
  Machine.allSteps_congr fun _ _ => good_iff

def autoConfig (url : String) : ProxyConfig :=
  { ProxyConfig.default with mode := .auto, pacUrl := some url }

/-- The PAC scripts of two sites, of which only the first one can be reached. -/
def firstSite : World Call.Answer := fun _ c =>
  match c with
  | .fetchPac url => if url = "http://a.example.com/" then Except.ok "a" else Except.error (.io "")
  | c => answering 0 c

/-- The script of the first site is applied, then that of the second one. -/
def twoSites : List (ProxyConfig × World Call.Answer) :=
  [(autoConfig "http://a.example.com/", firstSite), (autoConfig "http://b.example.com/", firstSite)]

/-- A new process. -/
def start : PacHistory := ⟨⟨none, none, none⟩, []⟩

/-- What is active and cached after a sequence of calls, what was fetched, and an answer. -/
def summary (calls : List (ProxyConfig × World Call.Answer)) :
    Option String × Option String × List (String × String) × String :=
  let h := Machine.finalState step start calls
  (h.state.active.bind (·.pacUrl), h.state.pacCache, h.fetched,
    ((resolveForUrl "http://c.example.com/").run firstSite h.state).result)

/-- The second call fails, and the script of the first one answers for it. -/
theorem stale_script_used :
    summary twoSites = (some "http://b.example.com/", some "a", [("http://a.example.com/", "a")],
      "PROXY proxy.corp.example.com:3128") ∧
    ¬∀ calls, Machine.AllSteps step Good start calls := by
  have hsummary : summary twoSites = (some "http://b.example.com/", some "a",
      [("http://a.example.com/", "a")], "PROXY proxy.corp.example.com:3128") := by
    decide
  refine ⟨hsummary, fun h => ?_⟩
  obtain ⟨-, ⟨-, hdirect⟩, -⟩ := h twoSites
  have hanswer := hdirect rfl (by decide) "http://c.example.com/" firstSite
  have hproxy := congrArg (·.2.2.2) hsummary
  exact absurd (hproxy.symm.trans hanswer) (by decide)

end PacHistory

end MitosNetwork.Proxy
