import MitosNetwork.Manager.Conduct

/-!
# Stopping a hotspot

`Request::StartHotspot` and `Request::StopHotspot` of `src/manager/manager.rs`, over runs of the
daemon. `sharing::hotspot::start` returns a session that `sharing::hotspot::stop` needs to end the
DHCP server and to take the forward pair back. The manager drops the session and ends a hotspot with
`wifi::hotspot::stop`, which only knows the access point.
-/

namespace MitosNetwork

open List

variable {k : ℕ} {N : Type}

/-! ## What the manager's operations do to sharing -/

namespace Firewall

variable {lan wan : String} {op : Op}

def NoStray (fw : Firewall) : Prop :=
  ∀ wan ∈ fw.masqueradeInterfaces, ∃ lan, (lan, wan) ∈ fw.forwardPairs

/-- No forward pair is taken back, and no masquerade is added without one. -/
structure SharesMore (fw fw' : Firewall) : Prop where
  pairs : fw.forwardPairs ⊆ fw'.forwardPairs
  masquerades : ∀ wan ∈ fw'.masqueradeInterfaces, wan ∈ fw.masqueradeInterfaces ∨
    ∃ lan, (lan, wan) ∈ fw'.forwardPairs

namespace SharesMore

variable {fw fw' fw'' : Firewall}

theorem of_eq (hpairs : fw'.forwardPairs = fw.forwardPairs)
    (hmasquerades : fw'.masqueradeInterfaces = fw.masqueradeInterfaces) : SharesMore fw fw' where
  pairs := by rw [hpairs]; exact List.Subset.refl _
  masquerades wan hwan := .inl (hmasquerades ▸ hwan)

theorem trans (h : SharesMore fw fw') (h' : SharesMore fw' fw'') : SharesMore fw fw'' where
  pairs := List.Subset.trans h.pairs h'.pairs
  masquerades wan hwan := by
    rcases h'.masquerades wan hwan with hwan' | hpair
    · rcases h.masquerades wan hwan' with hold | ⟨lan, hlan⟩
      · exact .inl hold
      · exact .inr ⟨lan, h'.pairs hlan⟩
    · exact .inr hpair

theorem noStray (h : SharesMore fw fw') (hfw : fw.NoStray) : fw'.NoStray := by
  intro wan hwan
  rcases h.masquerades wan hwan with hold | hpair
  · obtain ⟨lan, hlan⟩ := hfw wan hold
    exact ⟨lan, h.pairs hlan⟩
  · exact hpair

end SharesMore

theorem sharesMore_edit {fw fw' : Firewall} (hop : op.isOwn = true)
    (h : op.edit fw = .ok (some fw')) : SharesMore fw fw' := by
  cases Edit.of_eq h with
  | assignZone | addRule | removeRule => exact .of_eq rfl rfl
  | enableSharing lan wan =>
    refine ⟨fun p hp => mem_appendNew.mpr (.inl hp), fun wan' hwan' => ?_⟩
    -- the only new masquerade is that of the uplink, and its pair is there
    rcases mem_appendNew.mp hwan' with hold | hnew
    · exact .inl hold
    · rw [mem_singleton.mp hnew]
      exact .inr ⟨lan, mem_appendNew.mpr (.inr mem_cons_self)⟩
  | disableSharing => cases hop

theorem sharesMore_perform (host : Host) (hop : op.isOwn = true) (nft : NftOutcome) :
    SharesMore host.fw (host.perform op nft).1.fw := by
  rcases perform_cases host op nft with ⟨-, hsame⟩ | ⟨-, fw, hedit, hper⟩
  · rw [hsame]
    exact .of_eq rfl rfl
  · rw [hper]
    exact sharesMore_edit hop hedit

theorem mem_pairs_of_operate {w : World Call.Answer} {host : Host}
    (h : (operate (.enableSharing lan wan) w k host).result = .ok ()) :
    (lan, wan) ∈ (operate (.enableSharing lan wan) w k host).state.fw.forwardPairs := by
  obtain ⟨nft, hst⟩ := state_operate (.enableSharing lan wan) w k host
  rcases perform_cases host (.enableSharing lan wan) nft with ⟨happ, -⟩ | ⟨-, fw, hedit, hper⟩
  · cases hshared : host.fw.enableSharing lan wan with
    | error e =>
      rw [operate, Proc.get_bind] at h
      simp only [Op.edit, hshared] at h
      cases h
    | ok fw =>
      have happlies := (applies_iff_edit host.fw (.enableSharing lan wan)).mpr
        ⟨fw, map_some_eq_ok.mpr hshared⟩
      rw [happlies] at happ
      cases happ
  · rw [hst, hper]
    rw [enableSharing_eq_ok (map_some_eq_ok.mp hedit)]
    exact mem_appendNew.mpr (.inr mem_cons_self)

end Firewall

/-! ## What a hotspot that was started leaves -/

def serverStarted : (c : Call) → c.Answer → Option String
  | .startDhcpServer cfg, .ok () => some cfg.interface
  | _, _ => none

def serversStarted {N : Type} (log : List (Entry Call.Answer N)) : List String :=
  log.filterMap fun
    | .call c answer => serverStarted c answer
    | .note _ => none

theorem serversStarted_append (log log' : List (Entry Call.Answer N)) :
    serversStarted (log ++ log') = serversStarted log ++ serversStarted log' :=
  filterMap_append

theorem serversStarted_map_liftEntry (log : List (Entry Call.Answer Empty)) :
    serversStarted (log.map (Proc.liftEntry (N := N))) = serversStarted log := by
  rw [serversStarted, filterMap_map]
  refine filterMap_congr fun e _ => ?_
  cases e with
  | note n => exact n.elim
  | call c a => rfl

namespace Hotspot

variable {w : World Call.Answer}

theorem leaves_server (interface ssid : String) (passphrase uplink : Option String) :
    Try.Leaves w (fun _ log => interface ∈ serversStarted log)
      (start interface ssid passphrase uplink) := by
  have hlat : ∀ (_ : Radio) (log log' : List (Entry Call.Answer Empty)),
      interface ∈ serversStarted log' → interface ∈ serversStarted (log ++ log') := by
    intro _ log log' h
    rw [serversStarted_append]
    exact mem_append_right _ h
  iterate 5 refine .bind (fun _ => ?_) hlat
  refine .bind_left (.ofProc fun k radio u h => ?_) fun log log' h => ?_
  · show interface ∈ serversStarted [.call (.startDhcpServer _) (w k (.startDhcpServer _))]
    have h : w k (.startDhcpServer (dhcpConfig interface)) = Except.ok () := h
    rw [h]
    exact mem_cons_self
  · rw [serversStarted_append]
    exact mem_append_left _ h

theorem leaves_pair (interface ssid : String) (passphrase : Option String) (wan : String) :
    Try.Leaves w (fun radio _ => (interface, wan) ∈ radio.host.fw.forwardPairs)
      (start interface ssid passphrase (some wan)) := by
  iterate 7 refine .bind (fun _ => ?_) fun _ _ _ h => h
  refine .bind (fun _ => .ofProc fun k radio u h => ?_) fun _ _ _ h => h
  exact Firewall.mem_pairs_of_operate h

end Hotspot

/-! ## Runs -/

namespace NetworkManager

def sharing : Conduct where
  Allows m _ m' := m.host.fw.SharesMore m'.host.fw
  refl _ := .of_eq rfl rfl
  trans h h' := h.trans h'

theorem indifferent_sharing : Indifferent sharing where
  rest hhost _ := by
    show Firewall.SharesMore _ _
    rw [hhost]
    exact .of_eq rfl rfl
  event _ _ _ := .of_eq rfl rfl
  firewall m _ nft hop := Firewall.sharesMore_perform m.host hop nft
  register _ := .of_eq rfl rfl
  unregister _ _ := .of_eq rfl rfl

variable {w : World Call.Answer} {m : NetworkManager} {device ssid : String}
  {passphrase uplink : Option String}

theorem started_of_ok {actor : String}
    (h : (startHotspot actor device ssid passphrase uplink w k m).result = .ok) :
    device ∈ serversStarted (startHotspot actor device ssid passphrase uplink w k m).log ∧
    ∀ wan, uplink = some wan → (device, wan) ∈
      (startHotspot actor device ssid passphrase uplink w k m).state.host.fw.forwardPairs := by
  have hok : (onRadio (Hotspot.start device ssid passphrase uplink).run w k m).result = .ok () := by
    rw [startHotspot, Proc.result_bind] at h
    cases hran : (onRadio (Hotspot.start device ssid passphrase uplink).run w k m).result with
    | error e =>
      rw [hran] at h
      cases h
    | ok u => rfl
  rw [startHotspot, Proc.log_bind, Proc.state_bind, serversStarted_append, hok]
  refine ⟨mem_append_left _ ?_, ?_⟩
  · show device ∈ serversStarted (List.map Proc.liftEntry _)
    rw [serversStarted_map_liftEntry]
    exact Hotspot.leaves_server device ssid passphrase uplink _ _ _ hok
  · rintro wan rfl
    exact Hotspot.leaves_pair device ssid passphrase wan _ _ _ hok

end NetworkManager

namespace Daemon

theorem sharesMore_step (d : Daemon) (i : Input) :
    d.manager.host.fw.SharesMore (d.step i).1.manager.host.fw := by
  unfold step
  split
  · exact NetworkManager.indifferent_sharing.obeysAt_program i.1 d.manager
  · exact .of_eq rfl rfl

theorem sharesMore_finalState (d : Daemon) (stages : List Input) :
    d.manager.host.fw.SharesMore (Machine.finalState step d stages).manager.host.fw :=
  Machine.finalState_invariant (P := fun d' => d.manager.host.fw.SharesMore d'.manager.host.fw)
    (.of_eq rfl rfl) (fun d' i h => h.trans (sharesMore_step d' i)) stages

theorem running_finalState {d : Daemon} {stages : List Input} (hd : d.running = true)
    (h : ∀ i ∈ stages, i.1.goesOn = true) : (Machine.finalState step d stages).running = true := by
  induction stages generalizing d with
  | nil => exact hd
  | cons i stages ih =>
    refine ih ?_ fun j hj => h j (mem_cons_of_mem _ hj)
    rw [step, if_pos hd]
    exact h i mem_cons_self

/-- The interfaces whose DHCP servers are running after a run. The thread of a server ends when the
handle in its session is told to stop, and no session is kept, or with the process. -/
def serversRunning (d : Daemon) (stages : List Input) : List String :=
  if (Machine.finalState step d stages).running then serversStarted (logOf d stages) else []

/-- A hotspot that is started and, after other stages, stopped. -/
structure HotspotRun where
  device : String
  ssid : String
  passphrase : Option String
  uplink : Option String
  starter : PeerIdentity
  startWorld : World Call.Answer
  between : List Input
  stopper : PeerIdentity
  stopWorld : World Call.Answer

namespace HotspotRun

variable (r : HotspotRun)

def start : Input :=
  (.command (.request (.startHotspot r.device r.ssid r.passphrase r.uplink) r.starter),
    r.startWorld)

def stop : Input := (.command (.request (.stopHotspot r.device) r.stopper), r.stopWorld)

def stages : List Input := r.start :: r.between ++ [r.stop]

def firewall (d : Daemon) : Firewall := (Machine.finalState step d r.stages).manager.host.fw

/-- What the start did is undone: no forward pair of the device is left that was not there, every
masquerade is needed, and no DHCP server is running for the device. -/
structure Undone (d : Daemon) : Prop where
  pairs : ∀ wan, (r.device, wan) ∈ (r.firewall d).forwardPairs →
    (r.device, wan) ∈ d.manager.host.fw.forwardPairs
  masquerades : (r.firewall d).NoStray
  server : r.device ∉ serversRunning d r.stages

variable {r} {d : Daemon} (hstart : (d.step r.start).2.response = some .ok)
include hstart

theorem running_of_start : d.running = true := by
  by_contra hstopped
  rw [step, if_neg hstopped] at hstart
  cases hstart

theorem started_of_start : r.device ∈ serversStarted (d.step r.start).2.log ∧
    ∀ wan, r.uplink = some wan →
      (r.device, wan) ∈ (d.step r.start).1.manager.host.fw.forwardPairs := by
  have hrun := running_of_start hstart
  rw [step, if_pos hrun] at hstart ⊢
  obtain ⟨hsrv, hpair⟩ := NetworkManager.started_of_ok (Option.some.inj hstart)
  refine ⟨?_, hpair⟩
  show r.device ∈ serversStarted (_ ++ [])
  rw [append_nil]
  exact hsrv

/-- **Stopping a hotspot does not undo starting it.** Whatever happens in between, the DHCP server
of a hotspot that was started and stopped is still running and the forward pair to its uplink is
still there. A masquerade is left without a forward pair only if one was before. -/
theorem hotspot_not_undone (hbetween : ∀ i ∈ r.between, i.1.goesOn = true) :
    ¬r.Undone d ∧
      (∀ wan, r.uplink = some wan → (r.device, wan) ∈ (r.firewall d).forwardPairs) ∧
      (d.manager.host.fw.NoStray → (r.firewall d).NoStray) := by
  obtain ⟨hserver, hpair⟩ := started_of_start hstart
  refine ⟨fun hundone => hundone.server ?_, fun wan hwan => ?_, ?_⟩
  · have hrunning : (Machine.finalState step d r.stages).running = true := by
      refine running_finalState (running_of_start hstart) fun i hi => ?_
      rcases mem_cons.mp hi with rfl | hi
      · rfl
      · rcases mem_append.mp hi with hi | hi
        · exact hbetween i hi
        · rw [mem_singleton.mp hi]
          rfl
    rw [serversRunning, if_pos hrunning, stages, cons_append, logOf_cons, serversStarted_append]
    exact mem_append_left _ hserver
  · exact (sharesMore_finalState (d.step r.start).1 (r.between ++ [r.stop])).pairs (hpair wan hwan)
  · exact (sharesMore_finalState d r.stages).noStray

omit hstart

/-- The machine whose Wi-Fi is shared: an Ethernet link and a Wi-Fi link. -/
def sharedLinks : List Interface :=
  [⟨2, "eth0", 0x41, 1500, none, none⟩, ⟨3, "wlan0", 0x41, 1500, none, none⟩]

/-- The uplink is shared on a machine that is started anew, and the hotspot is stopped at once. -/
def sharedUplink : HotspotRun where
  device := "wlan0"
  ssid := "guests"
  passphrase := some "correct horse"
  uplink := some "eth0"
  starter := ⟨0, 0, 1⟩
  startWorld := fun _ => calm sharedLinks (.ok ())
  between := []
  stopper := ⟨0, 0, 1⟩
  stopWorld := fun _ => calm sharedLinks (.ok ())

def freshDaemon : Daemon := ⟨.blank Config.defaultConfig ⟨none, none⟩, true⟩

theorem hotspot_not_undone_sharedUplink :
    ¬sharedUplink.Undone freshDaemon ∧
      ("wlan0", "eth0") ∈ (sharedUplink.firewall freshDaemon).forwardPairs := by
  have hstart : (freshDaemon.step sharedUplink.start).2.response = some .ok := rfl
  obtain ⟨hnot, hpair, -⟩ := hotspot_not_undone hstart fun _ h => (nomatch h)
  exact ⟨hnot, hpair "eth0" rfl⟩

/-- The access point is down after the stop, and everything else is as the start left it. -/
theorem sharedUplink_left :
    (freshDaemon.step sharedUplink.start).2.response = some .ok ∧
      (Machine.finalState step freshDaemon sharedUplink.stages).manager.hostapd = [] ∧
      freshDaemon.manager.host.fw.forwardPairs = [] ∧
      (sharedUplink.firewall freshDaemon).forwardPairs = [("wlan0", "eth0")] ∧
      serversRunning freshDaemon sharedUplink.stages = ["wlan0"] ∧
      ¬sharedUplink.Undone freshDaemon := by
  have hservers : serversRunning freshDaemon sharedUplink.stages = ["wlan0"] := by decide +kernel
  refine ⟨rfl, by decide +kernel, rfl, by decide +kernel, hservers, fun hundone => ?_⟩
  refine hundone.server ?_
  exact mem_cons_self

end HotspotRun

end Daemon

end MitosNetwork
