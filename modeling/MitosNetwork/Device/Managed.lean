import Mathlib.Data.List.Chain
import MitosNetwork.Common.Machine
import MitosNetwork.Device.Device

/-!
# The managed state over refreshes

`refresh` marks the scanned devices whose names are listed as unmanaged and lets every other device
it knows keep its state. So it marks and never unmarks: `managed_follows_iff` says that the state
follows the list over a sequence of refreshes if and only if no name leaves the list while its
device stays.
-/

namespace MitosNetwork.DeviceRegistry

/-- A successful refresh: the list of the configuration, and what the kernel answers. -/
structure Refresh where
  unmanaged : List String
  links : List Interface
  addrs : List LinkAddress
  sysfs : String → Sysfs

namespace Refresh

/-- What `discovery::scan` returns. -/
def scan (i : Refresh) : List NetworkDevice := i.links.map (Discovery.scanned i.addrs i.sysfs)

def names (i : Refresh) : List String := i.links.map (·.name)

/-- A name that is listed at the first refresh and scanned at both is still listed at the second. -/
def Keeps (i j : Refresh) : Prop :=
  ∀ name ∈ i.unmanaged, name ∈ i.names → name ∈ j.names → name ∈ j.unmanaged

end Refresh

variable (r : DeviceRegistry)

def step (i : Refresh) : DeviceRegistry × Unit :=
  (r.refreshed i.unmanaged i.scan, ())

/-- After the refresh a scanned device is unmanaged if and only if it is listed. -/
def Follows (i : Refresh) : Prop :=
  ∀ name ∈ i.names, ∃ d, (r.step i).1.get name = some d ∧
    (d.state = .unmanaged ↔ name ∈ i.unmanaged)

def Released (i : Refresh) : Prop :=
  ∀ name ∈ i.names, name ∉ i.unmanaged → ∀ known, r.get name = some known → known.state ≠ .unmanaged

variable {r : DeviceRegistry} {i j : Refresh} {name : String} {d : NetworkDevice}

/-! ## One refresh -/

theorem isSome_get_step : ((r.step i).1.get name).isSome ↔ name ∈ i.names := by
  show ((r.refreshed i.unmanaged i.scan).get name).isSome ↔ _
  rw [get_refreshed]
  simp [Refresh.scan, Refresh.names, Discovery.scanned]

theorem state_step (h : (r.step i).1.get name = some d) :
    d.state = .unmanaged ↔ name ∈ i.unmanaged ∨
      ∃ known, r.get name = some known ∧ known.state = .unmanaged := by
  rw [step, get_refreshed] at h
  obtain ⟨dev, hdev, rfl⟩ := Option.map_eq_some_iff.mp h
  have hname : dev.name = name := by simpa using List.find?_some hdev
  have hfre : dev.state ≠ .unmanaged := by
    obtain ⟨link, -, rfl⟩ := List.mem_map.mp (List.mem_reverse.mp (List.mem_of_find?_eq_some hdev))
    show (if _ then _ else _) ≠ _
    split <;> decide
  rw [takeOver, hname]
  by_cases hls : name ∈ i.unmanaged
  · rw [if_pos hls]
    exact iff_of_true rfl (.inl hls)
  · rw [if_neg hls, or_iff_right hls]
    cases hkn : r.get name with
    | none =>
      refine iff_of_false hfre ?_
      rintro ⟨known, h, -⟩
      cases h
    | some known =>
      show known.state = _ ↔ _
      simp

theorem follows_iff : r.Follows i ↔ r.Released i := by
  constructor
  · intro h name hname hls known hkn hst
    obtain ⟨d, hd, hiff⟩ := h name hname
    exact hls (hiff.mp ((state_step hd).mpr (.inr ⟨known, hkn, hst⟩)))
  · intro h name hname
    obtain ⟨d, hd⟩ := Option.isSome_iff_exists.mp (isSome_get_step (r := r) |>.mpr hname)
    refine ⟨d, hd, ?_⟩
    rw [state_step hd, or_iff_left_iff_imp]
    rintro ⟨known, hkn, hst⟩
    by_contra hls
    exact h name hname hls known hkn hst

theorem released_step (h : r.Follows i) : (r.step i).1.Released j ↔ i.Keeps j := by
  constructor
  · intro hreleased name hls hi hj
    obtain ⟨d, hd, hiff⟩ := h name hi
    by_contra hgone
    exact hreleased name hj hgone d hd (hiff.mpr hls)
  · intro hkp name hj hgone d hd hst
    have hi : name ∈ i.names := isSome_get_step.mp (Option.isSome_iff_exists.mpr ⟨d, hd⟩)
    obtain ⟨d', hd', hiff⟩ := h name hi
    obtain rfl : d = d' := Option.some.inj (hd.symm.trans hd')
    exact hgone (hkp name (hiff.mp hst) hi hj)

/-! ## A sequence of refreshes -/

/-- **Managed status.** Over any sequence of refreshes, from any registry, each of them leaves
exactly the listed ones among the scanned devices unmanaged, if and only if the first one finds no
device unmanaged that it does not list, and from one refresh to the next no name leaves the list
while its device stays. -/
theorem managed_follows_iff (r : DeviceRegistry) (refreshes : List Refresh) :
    Machine.AllSteps step Follows r refreshes ↔
      (∀ i ∈ refreshes.head?, r.Released i) ∧ refreshes.IsChain Refresh.Keeps := by
  induction refreshes generalizing r with
  | nil => simp [Machine.AllSteps]
  | cons i rest ih =>
    have hhead : (∀ i' ∈ (i :: rest).head?, r.Released i') ↔ r.Follows i := by
      simp [follows_iff]
    rw [Machine.AllSteps, ih, hhead, List.isChain_cons]
    refine and_congr_right fun h => and_congr_left fun _ => ?_
    exact forall₂_congr fun j _ => released_step h

def ethernetRefresh (unmanaged : List String) : Refresh where
  unmanaged := unmanaged
  links := [⟨2, "eth0", 0x41, 1500, none, none⟩]
  addrs := []
  sysfs := fun _ => ⟨false, false, true, none⟩

/-- The device is taken off the list, and stays unmanaged. -/
theorem unlisted_stays_unmanaged :
    ((Machine.finalState step new [ethernetRefresh ["eth0"], ethernetRefresh []]).get "eth0").map
      (·.state) = some .unmanaged ∧
    ¬∀ r refreshes, Machine.AllSteps step Follows r refreshes := by
  have hstate : ((Machine.finalState step new
      [ethernetRefresh ["eth0"], ethernetRefresh []]).get "eth0").map (·.state) =
      some .unmanaged := by decide
  refine ⟨hstate, fun h => ?_⟩
  obtain ⟨-, hsecond, -⟩ := h new [ethernetRefresh ["eth0"], ethernetRefresh []]
  obtain ⟨d, hd, hiff⟩ := hsecond "eth0" (by decide)
  obtain ⟨d', hd', hunmanaged⟩ := Option.map_eq_some_iff.mp hstate
  obtain rfl : d = d' := Option.some.inj (hd.symm.trans hd')
  exact absurd (hiff.mp hunmanaged) (by decide)

end MitosNetwork.DeviceRegistry
