import Mathlib.Data.List.Induction
import MitosNetwork.Common.Files
import MitosNetwork.Common.Machine
import MitosNetwork.Security.Validation

/-!
# The secrets store

`FileSecretsBackend` of `src/security/secrets.rs` on a directory whose file operations succeed. A
secret is the file `<owner>.<key>`, and `delete_all` removes by the start of the name. A dot is
legal in an owner, so the secrets of `a.b` go with those of `a`; `store_is_map_iff` says that the
store is a map from owners and keys to values in exactly the runs in which no such pair meets.
-/

namespace MitosNetwork.Secrets

open Validation FileName

variable {key owner owner' : String} {dir : Directory}

/-! ## The backend -/

/-- `FileSecretsBackend::path`, as a name in the directory. -/
def path (owner key : String) : Result String := do
  validateIdentifier owner
  validateIdentifier key
  pure (owner ++ "." ++ key)

/-- `get`: a missing file is no secret. -/
def get (dir : Directory) (owner key : String) : Result (Option String) := do
  let name ← path owner key
  pure (dir.lookup name)

/-- `set`: the result and the directory afterwards. -/
def set (dir : Directory) (owner key value : String) : Result Unit × Directory :=
  match path owner key with
  | .error e => (.error e, dir)
  | .ok name => (.ok (), dir.replace (withExtension name "tmp") name value)

/-- `delete_all`, with the order in which the directory is listed. -/
def deleteAll (order : Order String) (dir : Directory) (owner : String) : Result Unit × Directory :=
  match validateIdentifier owner with
  | .error e => (.error e, dir)
  | .ok () => (.ok (), dir.removeWhere (fun name => (owner ++ ".").toList.isPrefixOf name.toList)
      (order.arrange dir.keys))

inductive Op where
  | set (owner key value : String)
  | get (owner key : String)
  | deleteAll (owner : String) (order : Order String)

/-- What an operation returns. -/
inductive Reply where
  | done (r : Result Unit)
  | value (r : Result (Option String))

def step (dir : Directory) : Op → Directory × Reply
  | .set owner key value => let (r, dir') := set dir owner key value; (dir', .done r)
  | .get owner key => (dir, .value (get dir owner key))
  | .deleteAll owner order => let (r, dir') := deleteAll order dir owner; (dir', .done r)

def files (ops : List Op) : Directory := Machine.finalState step ∅ ops

/-! ## The map it stands for -/

abbrev SecretMap := String → String → Option String

def SecretMap.apply (m : SecretMap) : Op → SecretMap
  | .set owner key value => fun o k => if o = owner ∧ k = key then some value else m o k
  | .get _ _ => m
  | .deleteAll owner _ => fun o k => if o = owner then none else m o k

theorem SecretMap.apply_set (m : SecretMap) (owner key value o k : String) :
    m.apply (.set owner key value) o k = if o = owner ∧ k = key then some value else m o k := rfl

theorem SecretMap.apply_deleteAll (m : SecretMap) (owner : String) (order : Order String)
    (o k : String) : m.apply (.deleteAll owner order) o k = if o = owner then none else m o k := rfl

/-- The value last set for each owner and key, unless all of the owner was deleted since. -/
def latest (ops : List Op) : SecretMap := ops.foldl SecretMap.apply fun _ _ => none

/-- A key of the daemon: an identifier without a dot that is not the name of the temporary file. -/
structure IsKey (key : String) : Prop where
  valid : validateIdentifier key = .ok ()
  dotFree : '.' ∉ key.toList
  notTmp : key ≠ "tmp"

def IsOwner (owner : String) : Prop := validateIdentifier owner = .ok ()

def Op.Legal : Op → Prop
  | .set owner key _ => IsOwner owner ∧ IsKey key
  | .get owner key => IsOwner owner ∧ IsKey key
  | .deleteAll owner _ => IsOwner owner

instance (key : String) : Decidable (IsKey key) :=
  decidable_of_iff (validateIdentifier key = .ok () ∧ '.' ∉ key.toList ∧ key ≠ "tmp")
    ⟨fun h => ⟨h.1, h.2.1, h.2.2⟩, fun h => ⟨h.valid, h.dotFree, h.notTmp⟩⟩

instance (owner : String) : Decidable (IsOwner owner) :=
  inferInstanceAs (Decidable (validateIdentifier owner = .ok ()))

instance : (op : Op) → Decidable op.Legal
  | .set owner key _ => inferInstanceAs (Decidable (IsOwner owner ∧ IsKey key))
  | .get owner key => inferInstanceAs (Decidable (IsOwner owner ∧ IsKey key))
  | .deleteAll owner _ => inferInstanceAs (Decidable (IsOwner owner))

/-- At every point of a run, `get` returns what the map holds. -/
def IsMap (ops : List Op) : Prop :=
  ∀ before after, ops = before ++ after → ∀ owner key, IsOwner owner → IsKey key →
    get (files before) owner key = .ok (latest before owner key)

/-- No owner whose name goes on after `owner` and a dot has a secret. -/
def Alone (m : SecretMap) (owner : String) : Prop :=
  ∀ other key, other ≠ owner → (owner ++ ".").toList <+: other.toList → m other key = none

/-! ## Names of secrets -/

def secretName (owner key : String) : String := owner ++ "." ++ key

theorem toList_secretName (owner key : String) :
    (secretName owner key).toList = owner.toList ++ '.' :: key.toList := by
  simp [secretName]

theorem path_eq (how : IsOwner owner) (hkey : IsKey key) :
    path owner key = .ok (secretName owner key) := by
  have howner' : validateIdentifier owner = .ok () := how
  simp only [path, howner', hkey.valid]
  rfl

theorem secretName_inj {key' : String} (hkey : IsKey key) (hkey' : IsKey key')
    (h : secretName owner key = secretName owner' key') : owner = owner' ∧ key = key' := by
  have hsp := congrArg (fun name => splitLastDot name.toList) h
  simp only [toList_secretName, splitLastDot_append hkey.dotFree,
    splitLastDot_append hkey'.dotFree, Option.some.injEq, Prod.mk.injEq,
    String.toList_inj] at hsp
  exact hsp

theorem withExtension_secretName (how : IsOwner owner) (hkey : IsKey key) :
    withExtension (secretName owner key) "tmp" = secretName owner "tmp" := by
  rw [withExtension, toList_secretName, stemAndExtension_append
    (of_validateIdentifier how).1 hkey.dotFree (of_validateIdentifier hkey.valid).1]
  simp [secretName]

theorem secretName_ne_tmp (hkey : IsKey key) : secretName owner key ≠ secretName owner' "tmp" := by
  intro h
  have hsp := congrArg (fun name => splitLastDot name.toList) h
  have htmp : '.' ∉ "tmp".toList := by decide
  simp only [toList_secretName, splitLastDot_append hkey.dotFree,
    splitLastDot_append htmp, Option.some.injEq, Prod.mk.injEq,
    String.toList_inj] at hsp
  exact hkey.notTmp hsp.2

theorem dotted_prefix_iff {owner other key : List Char} (hkey : '.' ∉ key) :
    owner ++ ['.'] <+: other ++ '.' :: key ↔ other = owner ∨ owner ++ ['.'] <+: other := by
  constructor
  · rintro ⟨rest, h⟩
    rcases List.append_eq_append_iff.mp h with ⟨tail, hother, -⟩ | ⟨tail, hdot, hkey'⟩
    · exact .inr ⟨tail, hother.symm⟩
    · rcases List.eq_nil_or_concat' tail with rfl | ⟨init, last, rfl⟩
      · exact .inr ⟨[], by simpa using hdot⟩
      · rw [← List.append_assoc] at hdot
        obtain ⟨rfl, hlast⟩ := List.append_inj' hdot rfl
        obtain rfl : '.' = last := List.singleton_inj.mp hlast
        cases init with
        | nil => exact .inl (by simp)
        | cons c init =>
          have hmem : key = init ++ ['.'] ++ rest := (List.cons.inj hkey').2
          exact absurd (hmem ▸ by simp) hkey
  · rintro (rfl | ⟨rest, rfl⟩)
    · exact ⟨key, by simp⟩
    · exact ⟨rest ++ '.' :: key, by simp⟩

theorem starts_secretName_iff {other : String} (hkey : IsKey key) :
    (owner ++ ".").toList.isPrefixOf (secretName other key).toList = true ↔
      other = owner ∨ (owner ++ ".").toList <+: other.toList := by
  have hdot : (owner ++ ".").toList = owner.toList ++ ['.'] := by simp
  rw [ List.isPrefixOf_iff_prefix, toList_secretName, hdot, dotted_prefix_iff hkey.dotFree,
    String.toList_inj]

/-! ## The store and the map -/

def Represents (dir : Directory) (m : SecretMap) : Prop :=
  ∀ owner key, IsOwner owner → IsKey key → dir.lookup (secretName owner key) = m owner key

theorem get_eq (how : IsOwner owner) (hkey : IsKey key) (dir : Directory) :
    get dir owner key = .ok (dir.lookup (secretName owner key)) := by
  rw [get, path_eq how hkey]
  rfl

theorem set_eq (how : IsOwner owner) (hkey : IsKey key) (dir : Directory) (value : String) :
    set dir owner key value =
      (.ok (), dir.replace (withExtension (secretName owner key) "tmp")
        (secretName owner key) value) := by
  simp only [set, path_eq how hkey]

variable {ops : List Op}

theorem isMap_iff_represents :
    IsMap ops ↔
      ∀ before after, ops = before ++ after → Represents (files before) (latest before) := by
  constructor
  · intro h before after hsp owner key how hkey
    have hget := h before after hsp owner key how hkey
    rw [get_eq how hkey] at hget
    exact Except.ok.inj hget
  · intro h before after hsp owner key how hkey
    rw [get_eq how hkey, h before after hsp owner key how hkey]

variable {m : SecretMap}

theorem represents_set (h : Represents dir m) (how : IsOwner owner) (hkey : IsKey key)
    (value : String) : Represents (set dir owner key value).2 (m.apply (.set owner key value)) := by
  intro o k ho hk
  rw [set_eq how hkey, withExtension_secretName how hkey, Directory.lookup_replace,
    if_neg (secretName_ne_tmp hk), h o k ho hk]
  refine if_congr ⟨fun heq => secretName_inj hk hkey heq, ?_⟩ rfl rfl
  rintro ⟨rfl, rfl⟩
  rfl

theorem lookup_deleteAll (how : IsOwner owner) (order : Order String) (dir : Directory)
    (other : String) (hkey : IsKey key) :
    (deleteAll order dir owner).2.lookup (secretName other key) =
      if other = owner ∨ (owner ++ ".").toList <+: other.toList then none
      else dir.lookup (secretName other key) := by
  have howner' : validateIdentifier owner = .ok () := how
  rw [deleteAll, howner']
  show (dir.removeWhere _ _).lookup _ = _
  rw [Directory.lookup_removeWhere_all]
  exact if_congr (starts_secretName_iff hkey) rfl rfl

theorem represents_step (h : Represents dir m) {op : Op} (hop : op.Legal)
    (halone : ∀ owner order, op = .deleteAll owner order → Alone m owner) :
    Represents (step dir op).1 (m.apply op) := by
  cases op with
  | set owner key value => exact represents_set h hop.1 hop.2 value
  | get owner key => exact h
  | deleteAll owner order =>
    intro o k ho hk
    refine (lookup_deleteAll hop order dir o hk).trans ?_
    rw [h o k ho hk, SecretMap.apply_deleteAll]
    by_cases heq : o = owner
    · rw [if_pos (.inl heq), if_pos heq]
    · split
      · rename_i hor
        exact (halone owner order rfl o k heq (hor.resolve_left heq)).symm
      · rfl

theorem files_append (ops : List Op) (op : Op) : files (ops ++ [op]) = (step (files ops) op).1 := by
  rw [files, Machine.finalState_append]
  rfl

theorem latest_append (ops : List Op) (op : Op) : latest (ops ++ [op]) = (latest ops).apply op := by
  rw [latest, List.foldl_append]
  rfl

theorem legal_of_latest (hleg : ∀ op ∈ ops, op.Legal) {value : String}
    (h : latest ops owner key = some value) : IsOwner owner ∧ IsKey key := by
  induction ops using List.reverseRecOn with
  | nil => cases h
  | append_singleton ops op ih =>
    have ih' := ih fun op' hop' => hleg op' (List.mem_append_left _ hop')
    rw [latest_append] at h
    cases op with
    | set o k v =>
      rw [SecretMap.apply_set] at h
      split at h
      · rename_i heq
        rw [heq.1, heq.2]
        exact hleg (.set o k v) (by simp)
      · exact ih' h
    | get o k => exact ih' h
    | deleteAll o order =>
      rw [SecretMap.apply_deleteAll] at h
      split at h
      · cases h
      · exact ih' h

/-- **The store is a map exactly if no `delete_all` meets secrets of an owner that goes on after its
name and a dot.** -/
theorem store_is_map_iff (ops : List Op) (hlegal : ∀ op ∈ ops, op.Legal) :
    IsMap ops ↔ ∀ before owner order after, ops = before ++ .deleteAll owner order :: after →
      Alone (latest before) owner := by
  rw [isMap_iff_represents]
  constructor
  · intro h before owner order after hsplit other key hne hstarts
    cases hvalue : latest before other key with
    | none => rfl
    | some value =>
      have hbefore : ∀ op ∈ before, op.Legal := fun op hop =>
        hlegal op (hsplit ▸ List.mem_append_left _ hop)
      have howner : IsOwner owner := hlegal (.deleteAll owner order) (by simp [hsplit])
      obtain ⟨hother, hkey⟩ := legal_of_latest hbefore hvalue
      have hmap :=
        h (before ++ [.deleteAll owner order]) after (by simp [hsplit]) other key hother hkey
      rw [files_append, latest_append] at hmap
      have hgone := lookup_deleteAll howner order (files before) other hkey
      rw [if_pos (.inr hstarts)] at hgone
      have hkept : (latest before).apply (.deleteAll owner order) other key = some value := by
        rw [SecretMap.apply_deleteAll, if_neg hne, hvalue]
      rw [hkept] at hmap
      exact absurd (hgone.symm.trans hmap) (by simp)
  · intro h before
    induction before using List.reverseRecOn with
    | nil =>
      intro _ _ owner key _ _
      rfl
    | append_singleton before op ih =>
      intro after hsplit
      have hsplit' : ops = before ++ op :: after := by simpa using hsplit
      rw [files_append, latest_append]
      refine represents_step (ih (op :: after) hsplit') (hlegal op (by simp [hsplit'])) ?_
      rintro owner order rfl
      exact h before owner order after hsplit'

def forgetHome : List Op :=
  [.set "home" "psk" "first", .set "office" "psk" "second", .deleteAll "home" .stored]

theorem store_is_map_forgetHome : (∀ op ∈ forgetHome, op.Legal) ∧ IsMap forgetHome := by
  have hlegal : ∀ op ∈ forgetHome, op.Legal := by decide
  refine ⟨hlegal, (store_is_map_iff forgetHome hlegal).mpr ?_⟩
  intro before owner order after hsplit other key hne hstarts
  obtain ⟨rfl, rfl⟩ : before = [.set "home" "psk" "first", .set "office" "psk" "second"] ∧
      owner = "home" := by
    rcases before with _ | ⟨a, _ | ⟨b, _ | ⟨c, before⟩⟩⟩ <;> simp [forgetHome] at hsplit
    obtain ⟨rfl, rfl, ⟨rfl, rfl⟩, -⟩ := hsplit
    exact ⟨rfl, rfl⟩
  have hother : other ≠ "home" ∧ other ≠ "office" := by
    constructor <;> rintro rfl <;> revert hstarts <;> decide
  simp [latest, SecretMap.apply, hother.1, hother.2]

/-- A connection whose id goes on after that of another one and a dot. -/
def forgetOffice : List Op := [.set "office.vpn" "psk" "second", .deleteAll "office" .stored]

/-- Deleting the secrets of `office` takes that of `office.vpn`. -/
theorem not_map_forgetOffice :
    (∀ op ∈ forgetOffice, op.Legal) ∧ get (files forgetOffice) "office.vpn" "psk" = .ok none ∧
      latest forgetOffice "office.vpn" "psk" = some "second" ∧ ¬IsMap forgetOffice := by
  have hget : get (files forgetOffice) "office.vpn" "psk" = .ok none := by decide +kernel
  have hlatest : latest forgetOffice "office.vpn" "psk" = some "second" := by decide +kernel
  refine ⟨by decide, hget, hlatest, fun h => ?_⟩
  have hmap := h forgetOffice [] (by simp) "office.vpn" "psk" (by decide) (by decide)
  cases hmap

end MitosNetwork.Secrets
