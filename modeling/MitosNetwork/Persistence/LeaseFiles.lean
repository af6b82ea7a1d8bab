import MitosNetwork.Common.Files
import MitosNetwork.Connection.Leases

/-!
# Lease files

`save_lease`, `load_lease` and `clear_lease` of `src/persistence/state.rs` and their counterparts
for IPv6, with `write_json` and `read_json` of `src/persistence/database.rs`, where file operations
succeed. The lease of `x` for IPv6 and that of `x.v6` for IPv4 are one file; all others are apart,
temporary files and all.
-/

namespace MitosNetwork.LeaseFiles

open Links Validation

/-- A name that `validate_interface_name` accepts. -/
abbrev InterfaceName := { name : String // validateInterfaceName name = .ok () }

abbrev Key := InterfaceName × Family

def LeaseOf : Family → Type
  | .v4 => Lease
  | .v6 => Lease6

/-- `serde_json` for leases. -/
structure Json where
  encode : ∀ {family}, LeaseOf family → String
  decode : ∀ family, String → Result (LeaseOf family)

/-- What is written for this lease is read back. -/
def Json.Keeps (json : Json) {family : Family} (lease : LeaseOf family) : Prop :=
  json.decode family (json.encode lease) = .ok lease

/-- `lease_path` and `lease6_path`. -/
def path : Key → String
  | (ifname, .v4) => leasePath ifname.1
  | (ifname, .v6) => lease6Path ifname.1

/-- The temporary file of `write_json`. -/
def tmpPath (key : Key) : String := FileName.withExtension (path key) "json.tmp"

/-- `load_lease` and `load_lease6`. -/
def load (json : Json) (dir : Directory) (key : Key) : Result (Option (LeaseOf key.2)) :=
  match dir.lookup (path key) with
  | none => .ok none
  | some text => (json.decode key.2 text).map some

/-- A call of `save_lease` or `save_lease6`; without a lease, of `clear_lease` or `clear_lease6`. -/
structure Op where
  key : Key
  lease : Option (LeaseOf key.2)

def perform (json : Json) (dir : Directory) (op : Op) : Directory :=
  match op.lease with
  | some lease => dir.replace (tmpPath op.key) (path op.key) (json.encode lease)
  | none => dir.erase (path op.key)

def after (json : Json) (ops : List Op) : Directory := ops.foldl (perform json) ∅

/-- What two maps, one for each family, would hold after some calls. -/
def kept (ops : List Op) : ∀ key : Key, Option (LeaseOf key.2) :=
  ops.foldl (fun now op => Function.update now op.key op.lease) fun _ => none

def Shares (key key' : Key) : Prop :=
  ∃ file ∈ [path key, tmpPath key], file ∈ [path key', tmpPath key']

/-- The IPv6 lease of an interface and the IPv4 lease of one whose name goes on with `.v6`. -/
def Clash (keys : Set Key) : Prop :=
  ∃ ifname ifname' : InterfaceName,
    (ifname, .v6) ∈ keys ∧ (ifname', .v4) ∈ keys ∧ ifname'.1 = ifname.1 ++ ".v6"

variable {json : Json} {keys : Set Key} {key key' : Key}

theorem tmpPath_eq (key : Key) : tmpPath key = path key ++ ".tmp" := by
  have hcut (stem : String) (h : stem ≠ "") :
      FileName.withExtension (stem ++ ".json") "json.tmp" = stem ++ ".json" ++ ".tmp" := by
    have hlist : (stem ++ ".json").toList = stem.toList ++ '.' :: "json".toList :=
      String.toList_append
    rw [FileName.withExtension, hlist, FileName.stemAndExtension_append
      (fun hnil => h (String.toList_inj.mp hnil)) (by decide) (by decide), String.ofList_toList,
      String.append_assoc, String.append_assoc]
    rfl
  obtain ⟨⟨name, hname⟩, family⟩ := key
  have hne : name ≠ "" := by
    rintro rfl
    cases hname
  cases family with
  | v4 => exact hcut name hne
  | v6 =>
    have hpath : path (⟨name, hname⟩, .v6) = name ++ ".v6" ++ ".json" := by
      rw [String.append_assoc]
      rfl
    rw [tmpPath, hpath]
    exact hcut _ fun h => hne (String.append_eq_empty_iff.mp h).1

theorem path_ne_tmpPath (key key' : Key) : path key ≠ tmpPath key' := by
  rw [tmpPath_eq]
  intro heq
  have hlast := congrArg (fun name => name.toList.getLast?) heq
  obtain ⟨ifname, family⟩ := key
  cases family <;> simp [path, leasePath, lease6Path] at hlast

/-- Without a clash, a path belongs to one interface and family. -/
theorem eq_of_path_eq (h : ¬Clash keys) (hkey : key ∈ keys) (hkey' : key' ∈ keys)
    (heq : path key = path key') : key = key' := by
  obtain ⟨n, family⟩ := key
  obtain ⟨n', family'⟩ := key'
  cases family with
  | v4 =>
    cases family' with
    | v4 => rw [Subtype.ext (leasePath_inj.mp heq)]
    | v6 => exact absurd ⟨n', n, hkey', hkey, leasePath_eq_lease6Path.mp heq⟩ h
  | v6 =>
    cases family' with
    | v4 => exact absurd ⟨n, n', hkey, hkey', leasePath_eq_lease6Path.mp heq.symm⟩ h
    | v6 => rw [Subtype.ext (lease6Path_inj.mp heq)]

theorem shares_iff : Shares key key' ↔ path key = path key' := by
  have hne := path_ne_tmpPath
  simp only [Shares, List.mem_cons, List.not_mem_nil, or_false, exists_eq_or_imp, exists_eq_left,
    hne key key', (hne key' key).symm, false_or]
  rw [tmpPath_eq, tmpPath_eq, String.append_left_inj, or_self]

theorem lookup_perform (json : Json) (dir : Directory) (op : Op) (key : Key) :
    (perform json dir op).lookup (path key) =
      if path key = path op.key then op.lease.map json.encode else dir.lookup (path key) := by
  obtain ⟨key', lease⟩ := op
  cases lease with
  | none => exact Table.lookup_erase_eq _ _ _
  | some lease =>
    refine (Directory.lookup_replace _ _ _).trans ?_
    rw [if_neg (path_ne_tmpPath key key')]
    rfl

/-- Without a clash, the directory holds what the maps would. -/
theorem lookup_after (h : ¬Clash keys) {ops : List Op} (hops : ∀ op ∈ ops, op.key ∈ keys)
    (hkey : key ∈ keys) :
    (after json ops).lookup (path key) = (kept ops key).map json.encode := by
  induction ops using List.reverseRecOn with
  | nil => simp [after, kept]
  | append_singleton ops op ih =>
    rw [List.forall_mem_append, List.forall_mem_singleton] at hops
    rw [after, kept, List.foldl_append, List.foldl_append, ← after, ← kept]
    refine (lookup_perform _ _ _ _).trans ?_
    by_cases heq : key = op.key
    · subst heq
      simp
    · rw [if_neg (mt (eq_of_path_eq h hkey hops.2) heq), ih hops.1]
      simp [heq]

theorem keeps_of_kept {ops : List Op} (hops : ∀ op ∈ ops, ∀ lease ∈ op.lease, json.Keeps lease) :
    ∀ lease ∈ kept ops key, json.Keeps lease := by
  induction ops using List.reverseRecOn with
  | nil => exact fun _ hnone => nomatch hnone
  | append_singleton ops op ih =>
    rw [List.forall_mem_append] at hops
    rw [kept, List.foldl_append, ← kept]
    by_cases heq : key = op.key
    · subst heq
      simpa using hops.2
    · simpa [heq] using ih hops.1

/-- A saved lease is also found by the interface and family that has the same file. -/
theorem load_after_save_ne (hpath : path key' = path key) (lease : LeaseOf key.2) :
    load json (after json [⟨key, some lease⟩]) key' ≠ .ok none := by
  have hlk : (after json [⟨key, some lease⟩]).lookup (path key') = some (json.encode lease) :=
    (lookup_perform json ∅ ⟨key, some lease⟩ key').trans (if_pos hpath)
  rw [load, hlk]
  cases h : json.decode key'.2 (json.encode lease) <;> simp [h, Except.map]

/-- **Lease files.** Of a set of interfaces and families no two have a file in common, and the files
behave as two maps over every sequence of calls with leases that `serde_json` reads back, if and
only if there is no interface in it for IPv6 whose name, with `.v6` behind it, is that of another
for IPv4. -/
theorem files_apart_iff (json : Json) (keys : Set Key)
    (hjson : ∃ lease : LeaseOf .v6, json.Keeps lease) :
    ((∀ key ∈ keys, ∀ key' ∈ keys, Shares key key' → key = key') ↔ ¬Clash keys) ∧
    ((∀ ops : List Op, (∀ op ∈ ops, op.key ∈ keys) →
      (∀ op ∈ ops, ∀ lease ∈ op.lease, json.Keeps lease) → ∀ key ∈ keys,
        load json (after json ops) key = .ok (kept ops key)) ↔ ¬Clash keys) := by
  refine ⟨⟨?_, fun h key hkey key' hkey' hshares => ?_⟩, ?_, fun h ops hops hkeep key hkey => ?_⟩
  · rintro h ⟨n, n', hn, hn', hname⟩
    have hpath : path (n, .v6) = path (n', .v4) := (leasePath_eq_lease6Path.mpr hname).symm
    cases h _ hn _ hn' (shares_iff.mpr hpath)
  · exact eq_of_path_eq h hkey hkey' (shares_iff.mp hshares)
  · rintro h ⟨n, n', hn, hn', hname⟩
    -- After the IPv6 lease is saved, the IPv4 lease of the other interface is not missing.
    obtain ⟨lease, hlease⟩ := hjson
    have hkept : kept [⟨(n, .v6), some lease⟩] (n', .v4) = none := by
      simp [kept]
    have hpath : path (n', .v4) = path (n, .v6) := leasePath_eq_lease6Path.mpr hname
    apply load_after_save_ne hpath lease
    rw [← hkept]
    exact h _ (by simpa using hn) (by simpa using hlease) _ hn'
  · have hread : ∀ lease ∈ kept ops key, json.Keeps lease := keeps_of_kept hkeep
    rw [load, lookup_after h hops hkey]
    cases hkept : kept ops key with
    | none => rfl
    | some lease => exact congrArg (Except.map some) (hread lease hkept)

/-- A lease of each family and what `serde_json::to_string_pretty` makes of it. -/
def eth0Lease : Lease :=
  ⟨.new 192 168 1 20, 24, some (.new 192 168 1 1), [], none, .new 192 168 1 1, 3600, 1700000000⟩

def eth0Lease6 : Lease6 :=
  ⟨⟨#v[0xfd00, 0, 0, 0, 0, 0, 0, 0x20]⟩, 128, 1, [0, 3], [], [], 1800, 3600, 0, 0, 1700000000⟩

def eth0Text : String :=
  "\n".intercalate ["\x7b", "  \"address\": \"192.168.1.20\",", "  \"prefixlen\": 24,",
    "  \"gateway\": \"192.168.1.1\",", "  \"dns_servers\": [],", "  \"domain\": null,",
    "  \"server_id\": \"192.168.1.1\",", "  \"lease_time_secs\": 3600,",
    "  \"obtained_at_unix\": 1700000000", "\x7d"]

def eth0Text6 : String :=
  "\n".intercalate ["\x7b", "  \"address\": \"fd00::20\",", "  \"prefixlen\": 128,",
    "  \"iaid\": 1,", "  \"server_id\": [", "    0,", "    3", "  ],", "  \"dns_servers\": [],",
    "  \"domain_search\": [],", "  \"preferred_lifetime_secs\": 1800,",
    "  \"valid_lifetime_secs\": 3600,", "  \"t1_secs\": 0,", "  \"t2_secs\": 0,",
    "  \"obtained_at_unix\": 1700000000", "\x7d"]

/-- `serde_json` as far as these two leases go. -/
def eth0Json : Json where
  encode {family} lease :=
    match family, lease with
    | .v4, (lease : Lease) => if lease = eth0Lease then eth0Text else ""
    | .v6, (lease : Lease6) => if lease = eth0Lease6 then eth0Text6 else ""
  decode
    | .v4, text => if text = eth0Text then .ok eth0Lease else .error (.parse "another text")
    | .v6, text => if text = eth0Text6 then .ok eth0Lease6 else .error (.parse "another text")

def eth0Saves : List Op :=
  [⟨(⟨"eth0", rfl⟩, .v4), some eth0Lease⟩, ⟨(⟨"eth0", rfl⟩, .v6), some eth0Lease6⟩]

/-- The two leases of `eth0` are kept beside each other. -/
theorem files_apart_eth0 :
    ¬Clash {key | key.1.1 = "eth0"} ∧
      load eth0Json (after eth0Json eth0Saves) (⟨"eth0", rfl⟩, .v4) = .ok (some eth0Lease) ∧
      load eth0Json (after eth0Json eth0Saves) (⟨"eth0", rfl⟩, .v6) = .ok (some eth0Lease6) := by
  have hkeep : @Json.Keeps eth0Json .v4 eth0Lease := by
    simp [Json.Keeps, eth0Json]
  have hkeep6 : @Json.Keeps eth0Json .v6 eth0Lease6 := by
    simp [Json.Keeps, eth0Json]
  have hclash : ¬Clash {key | key.1.1 = "eth0"} := by
    rintro ⟨ifname, ifname', hifname, hifname', hname⟩
    rw [show ifname.1 = "eth0" from hifname, show ifname'.1 = "eth0" from hifname'] at hname
    exact absurd hname (by decide)
  have hload := (files_apart_iff eth0Json _ ⟨_, hkeep6⟩).2.mpr hclash eth0Saves
    (by simp [eth0Saves]) ?_
  · refine ⟨hclash, (hload _ rfl).trans ?_, (hload _ rfl).trans ?_⟩ <;> simp [kept, eth0Saves]
  · simp only [eth0Saves, List.forall_mem_cons]
    refine ⟨fun lease hlease => ?_, fun lease hlease => ?_, List.forall_mem_nil _⟩
    · rw [← Option.some.inj hlease]
      exact hkeep
    · rw [← Option.some.inj hlease]
      exact hkeep6

/-- The IPv6 lease of `eth0` is in the file of the IPv4 lease of `eth0.v6`. -/
theorem files_collide :
    path (⟨"eth0", rfl⟩, .v6) = path (⟨"eth0.v6", rfl⟩, .v4) ∧
      ∀ json lease, load json (after json [⟨(⟨"eth0", rfl⟩, .v6), some lease⟩])
        (⟨"eth0.v6", rfl⟩, .v4) ≠ .ok none :=
  ⟨rfl, fun _ lease =>
    load_after_save_ne (show path (⟨"eth0.v6", rfl⟩, .v4) = path (⟨"eth0", rfl⟩, .v6) from rfl)
      lease⟩

end MitosNetwork.LeaseFiles
