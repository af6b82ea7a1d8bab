import Mathlib.Data.Int.ConditionallyCompleteOrder
import MitosNetwork.Common.FirstMax
import MitosNetwork.Connection.Profile

/-!
# Which profile autoconnect takes

`select` sorts the profiles of a list that `recently_used_first` has sorted before. Both sorts are
stable, so the head is the first maximum of the three keys together. `select_wifi` is the same with
other filters, and its filters do not look at the pin and the type of a profile.
-/

namespace MitosNetwork.Autoconnect

variable (device : NetworkDevice) (mtimes : String → Option ℤ) (p : ConnectionProfile)

/-- The profiles that may come up by themselves on the device. -/
def eligible : Bool :=
  p.autoconnect ∧ p.deviceType = device.deviceType ∧
    (p.interfaceName = none ∨ p.interfaceName = some device.name)

theorem eligible_eq : (p.autoconnect && matchesDevice p device) = eligible device p := by
  unfold matchesDevice eligible
  cases p.interfaceName <;> simp [beq_eq_decide]

def preference : Bool ×ₗ ℤ :=
  toLex (isPinned device p, p.autoconnectPriority)

def rank : (Bool ×ₗ ℤ) ×ₗ ℤ :=
  toLex (preference device p, lastUsed mtimes p)

theorem ranksBefore_iff {a b : ConnectionProfile} :
    ranksBefore device a b ↔ preference device b ≤ preference device a := by
  rw [preference, preference, Prod.Lex.toLex_le_toLex, ranksBefore]
  cases isPinned device a <;> cases isPinned device b <;> simp

theorem select_eq_argmax (candidates : List ConnectionProfile) :
    select device candidates =
      (candidates.filter (eligible device)).argmax (preference device) := by
  have hrel : ranksBefore device = fun a b => preference device b ≤ preference device a := by
    funext a b
    exact propext (ranksBefore_iff device)
  rw [← head?_insertionSort, select]
  simp only [eligible_eq]
  congr!

/-- **Autoconnect takes the first of the best profiles**, by pin, priority and time of the last use,
and no profile only if none is eligible. -/
theorem select_recentlyUsedFirst (profiles : List ConnectionProfile) :
    (∀ p, select device (recentlyUsedFirst mtimes profiles) = some p ↔
      FirstMax (rank device mtimes) (eligible device) profiles p) ∧
    (select device (recentlyUsedFirst mtimes profiles) = none ↔
      ∀ p ∈ profiles, ¬eligible device p) := by
  have hselect : select device (recentlyUsedFirst mtimes profiles) =
      (profiles.filter (eligible device)).argmax (rank device mtimes) := by
    rw [select_eq_argmax]
    exact argmax_filter_insertionSort (preference device) (lastUsed mtimes) profiles
  rw [hselect]
  constructor
  · exact fun p => argmax_filter_eq_some_iff
  · rw [List.argmax_eq_none, List.filter_eq_nil_iff]

/-! ## Wi-Fi -/

/-- The profiles that may come up on a Wi-Fi device that sees these networks. -/
def wifiEligible (visible : List String) (p : ConnectionProfile) : Bool :=
  p.autoconnect ∧ p.deviceType = .wifi ∧
    (p.interfaceName = none ∨ p.interfaceName = some device.name) ∧
    ∃ wifi ∈ p.wifi, wifi.ssid ∈ visible

/-- The filter of `select_wifi`. -/
def isVisible (visible : List String) (p : ConnectionProfile) : Bool :=
  p.autoconnect ∧ ∃ wifi ∈ p.wifi, wifi.ssid ∈ visible

/-- `select_wifi` takes the first of the visible profiles with the greatest priority. -/
theorem selectWifi_eq_argmax (hdevice : device.deviceType = .wifi)
    (candidates : List ConnectionProfile) (visible : List String) :
    selectWifi device candidates visible =
      (candidates.filter (isVisible visible)).argmax (·.autoconnectPriority) := by
  rw [selectWifi, if_pos hdevice, head?_insertionSort]
  refine congrArg (List.argmax _) (List.filter_congr fun q _ => ?_)
  cases hwifi : q.wifi <;> simp [isVisible, hwifi, List.any_beq']

/-- **Wi-Fi autoconnect** takes the first of the profiles for this device with the greatest
priority, if and only if every visible profile that is for another device or of another type has one
for this device before it: of greater priority, or of the same and earlier in the list. -/
theorem selectWifi_firstMax_iff (hdevice : device.deviceType = .wifi)
    (candidates : List ConnectionProfile) (visible : List String) :
    (∀ p, selectWifi device candidates visible = some p →
      FirstMax (·.autoconnectPriority) (wifiEligible device visible) candidates p) ↔
    ∀ q ∈ candidates, isVisible visible q → ¬wifiEligible device visible q →
      ∃ p ∈ candidates, wifiEligible device visible p ∧
        (q.autoconnectPriority < p.autoconnectPriority ∨
          q.autoconnectPriority = p.autoconnectPriority ∧
            candidates.idxOf p < candidates.idxOf q) := by
  have hvisible : ∀ p, wifiEligible device visible p → isVisible visible p := fun p hp =>
    have hall := of_decide_eq_true hp
    decide_eq_true ⟨hall.1, hall.2.2.2⟩
  rw [selectWifi_eq_argmax device hdevice]
  constructor
  · intro hfirst q hq hseen hother
    have hsome : (candidates.filter (isVisible visible)).argmax (·.autoconnectPriority) ≠ none :=
      mt List.argmax_eq_none.mp (List.ne_nil_of_mem (List.mem_filter.mpr ⟨hq, hseen⟩))
    obtain ⟨p, hp⟩ := Option.ne_none_iff_exists'.mp hsome
    obtain ⟨hmem, -, hmax, hearliest⟩ := argmax_filter_eq_some_iff.mp hp
    have hfor := (hfirst p hp).2.1
    refine ⟨p, hmem, hfor, (hmax q hq hseen).lt_or_eq.imp_right fun heq => ⟨heq, ?_⟩⟩
    refine (hearliest q hq hseen heq.ge).lt_of_ne fun hidx => hother ?_
    exact (List.idxOf_inj hmem).mp hidx ▸ hfor
  · intro hbefore p hp
    have hfirst := argmax_filter_eq_some_iff.mp hp
    refine hfirst.mono hvisible ?_
    by_contra hother
    -- what comes before the profile that was taken is visible too
    obtain ⟨q, hq, hfor, hlt | ⟨heq, hlt⟩⟩ := hbefore p hfirst.1 hfirst.2.1 hother
    · exact hlt.not_ge (hfirst.2.2.1 q hq (hvisible q hfor))
    · exact hlt.not_ge (hfirst.2.2.2 q hq (hvisible q hfor) heq.le)

/-- The first of two Wi-Fi adapters. -/
def wlan0 : NetworkDevice :=
  ⟨"wlan0", 3, .wifi, .disconnected, none, 1500, [], [], true, none, none⟩

def home : ConnectionProfile := .newWifi "home" "home" .open

/-- The profile that is pinned elsewhere comes second, so the other one is taken. -/
theorem selectWifi_firstMax_home :
    selectWifi wlan0 [home, { home with interfaceName := some "wlan1" }] ["home"] = some home ∧
      FirstMax (·.autoconnectPriority) (wifiEligible wlan0 ["home"])
        [home, { home with interfaceName := some "wlan1" }] home :=
  have htaken : selectWifi wlan0 [home, { home with interfaceName := some "wlan1" }] ["home"] =
      some home := by decide +kernel
  ⟨htaken, (selectWifi_firstMax_iff wlan0 rfl _ _).mpr (by decide +kernel) home htaken⟩

/-- A profile that is pinned to the other adapter comes up on this one, before one that is not. -/
theorem selectWifi_otherPin :
    selectWifi wlan0 [{ home with interfaceName := some "wlan1" }, home] ["home"] =
      some { home with interfaceName := some "wlan1" } ∧
    wifiEligible wlan0 ["home"] home ∧
    ¬wifiEligible wlan0 ["home"] { home with interfaceName := some "wlan1" } := by
  decide +kernel

end MitosNetwork.Autoconnect
