import MitosNetwork.Errors.Error

/-!
# Who may do what

`src/security/permissions.rs` and `src/security/policy.rs`. The user and group databases are those
of the host at the time of the check.
-/

namespace MitosNetwork

variable (db : UserDb)

/-- The credentials of a peer, as `SO_PEERCRED` gives them. -/
structure PeerIdentity where
  uid : UInt32
  gid : UInt32
  pid : Int32
deriving DecidableEq

structure UserDb where
  groupGid : String → Option UInt32
  userName : UInt32 → Option String
  groupMembers : UInt32 → Option (List String)

namespace PeerIdentity

def isRoot (peer : PeerIdentity) : Bool := peer.uid = 0

/-- `uid_in_supplementary_group`. -/
def inSupplementaryGroup (uid gid : UInt32) : Bool :=
  match db.userName uid, db.groupMembers gid with
  | some name, some members => name ∈ members
  | _, _ => false

/-- `in_group`. -/
def inGroup (peer : PeerIdentity) (groupName : String) : Bool :=
  if peer.isRoot then true
  else
    match db.groupGid groupName with
    | some gid => gid == peer.gid || inSupplementaryGroup db peer.uid gid
    | none => false

end PeerIdentity

namespace Policy

inductive Capability where
  | viewState
  | manageConnections
  | manageWifi
  | manageVpn
  | manageFirewall
  | manageHotspot
  | manageBluetooth
  | manageProxy
  | admin
deriving DecidableEq

/-- The text of `Debug`. -/
def Capability.debug : Capability → String
  | viewState => "ViewState"
  | manageConnections => "ManageConnections"
  | manageWifi => "ManageWifi"
  | manageVpn => "ManageVpn"
  | manageFirewall => "ManageFirewall"
  | manageHotspot => "ManageHotspot"
  | manageBluetooth => "ManageBluetooth"
  | manageProxy => "ManageProxy"
  | admin => "Admin"

def privilegedGroup : String := "netdev"

/-- What `check` allows. -/
def allows (peer : PeerIdentity) : Capability → Bool
  | .viewState => true
  | .admin => peer.isRoot
  | _ => peer.isRoot || peer.inGroup db privilegedGroup

/-- `check`. -/
def check (peer : PeerIdentity) (capability : Capability) : Result Unit :=
  if allows db peer capability then .ok ()
  else
    .error (.permissionDenied
      ("uid " ++ toString peer.uid.toNat ++ " lacks " ++ capability.debug))

def Unprivileged (peer : PeerIdentity) : Prop :=
  peer.isRoot = false ∧ peer.inGroup db privilegedGroup = false

instance (db : UserDb) (peer : PeerIdentity) : Decidable (Unprivileged db peer) :=
  inferInstanceAs (Decidable (_ ∧ _))

theorem check_eq_ok_iff {db : UserDb} {peer : PeerIdentity} (h : Unprivileged db peer)
    (capability : Capability) : check db peer capability = .ok () ↔ capability = .viewState := by
  unfold check
  cases capability with
  | viewState => exact ⟨fun _ => rfl, fun _ => rfl⟩
  | admin => simp [allows, h.1]
  | manageConnections | manageWifi | manageVpn | manageFirewall | manageHotspot | manageBluetooth
  | manageProxy => simp [allows, h.1, h.2]

end Policy

end MitosNetwork
