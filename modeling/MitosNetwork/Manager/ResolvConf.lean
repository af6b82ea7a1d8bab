import MitosNetwork.Manager.Activations

/-!
# The DNS mode over whole runs

`DnsMode` is read once, by `apply_from_config` in `new`. Activation writes the servers of a lease, a
reply or a profile without looking at it. So the mode holds for a run only as long as no activation
comes by name servers (`dnsMode_honoured`), or, in manual mode, as long as another file than the one
that activation writes is configured.
-/

namespace MitosNetwork

open Resolver Daemon List

/-- The name servers that the activations in a log come by, list by list: what the answers bring,
then what the activated profiles have themselves. -/
def contributed (log : Log) : List (List IpAddr) :=
  brought log ++ (activations log).flatMap (·.profile.ownServers)

theorem activations_activation (a : ActivateCall) (log : List (Entry Call.Answer Empty)) :
    activations (.note a :: log.map Proc.liftEntry) = [a] := by
  refine congrArg (a :: ·) (eq_nil_iff_forall_not_mem.mpr fun b hb => ?_)
  obtain ⟨e, -, he⟩ := mem_map.mp (mem_activations.mp hb)
  cases e with
  | call c answer => cases he
  | note n => exact n.elim

theorem contributed_activation (a : ActivateCall) (log : List (Entry Call.Answer Empty)) :
    contributed (.note a :: log.map Proc.liftEntry) = brought log ++ a.profile.ownServers := by
  have hbro : brought (.note a :: log.map Proc.liftEntry : Log) = brought log :=
    brought_map_liftEntry log
  rw [contributed, hbro, activations_activation, flatMap_singleton]

theorem writes_activation (a : ActivateCall) (log : List (Entry Call.Answer Empty)) :
    writes (.note a :: log.map Proc.liftEntry : Log) = writes log :=
  writes_map_liftEntry log

theorem writes_call {N : Type} {c : Call} (hc : c.isDns = false) (a : c.Answer) :
    writes [(.call c a : Entry Call.Answer N)] = [] := by
  cases c with
  | writeResolvConf path servers search => cases hc
  | _ => rfl

namespace NetworkManager

def Law.unwritten : Law where
  Holds log := writes log = []
  nil := rfl
  append h h' := by rw [writes_append, h, h', append_nil]
  call hc a := writes_call hc a

def Law.defaultFile : Law where
  Holds log := ∀ write ∈ writes log, write.path = Config.defaultResolvConf
  nil _ h := nomatch h
  append h h' write hmem := by
    rw [writes_append] at hmem
    exact (mem_append.mp hmem).elim (h write) (h' write)
  call hc a write hmem := by
    rw [writes_call hc a] at hmem
    cases hmem

/-! ## Starting -/

abbrev configured (config : NetworkConfig) : Property := fun c _ _ _ _ => c = config

variable {w : World Call.Answer} {k : ℕ} {m : NetworkManager}

end NetworkManager

/-! ## Whole runs -/

namespace Daemon

open NetworkManager

theorem defaultFile_activation (w : World Call.Answer) (registry : DeviceRegistry)
    (profile : ConnectionProfile) (device : NetworkDevice) (k : ℕ) (work : Work) :
    Law.defaultFile.Holds (.note ⟨registry, profile, device⟩ ::
      ((Activation.activate profile).run w k work).log.map Proc.liftEntry) := by
  intro write hwrite
  rw [writes_activation] at hwrite
  exact path_of_mem_writes ((Activation.settles_activate profile).calls w k work) hwrite

def resolvedProfile (id server : String) : ConnectionProfile :=
  { wiredProfile id false with dns := [server] }

def served : List Request :=
  [.addConnection (resolvedProfile "office" "8.8.8.8"), .activateConnection "office"]

end Daemon

end MitosNetwork
