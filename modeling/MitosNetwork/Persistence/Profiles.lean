import MitosNetwork.Common.Files
import MitosNetwork.Manager.Outside

/-!
# Profiles on disk

The directory behind `src/persistence/profiles.rs`, with `write_atomic` of `src/config/parser.rs`
and `list_dir` of `src/persistence/database.rs`, where file operations succeed. A profile is the
TOML text in the file `<id>.toml`. `Keeps dir profiles` says that the directory holds exactly these
profiles; it then is what `load_all` reads back, in some order (`Keeps.perm_loadAll`).
-/

namespace MitosNetwork

/-- `toml::to_string_pretty` and `toml::from_str` for profiles: what is written is read back. -/
structure Toml where
  encode : ConnectionProfile → Except String String
  decode : String → Option ConnectionProfile
  decode_of_encode : ∀ {p text}, encode p = .ok text → decode text = some p

namespace Profiles

open Validation

/-! ## The operations -/

/-- The name of the file in `profile_path`. -/
def fileName (id : String) : String := id ++ ".toml"

/-- `write_atomic` for the file of a profile: the result and the directory afterwards. -/
def writeAtomic (toml : Toml) (dir : Directory) (p : ConnectionProfile) : Result Unit × Directory :=
  match toml.encode p with
  | .error e => (.error (.config e), dir)
  | .ok text =>
    (.ok (), dir.replace (FileName.withExtension (fileName p.id) "toml.tmp") (fileName p.id) text)

/-- `remove_file` in `delete`. -/
def remove (dir : Directory) (id : String) : RemoveOutcome × Directory :=
  match dir.lookup (fileName id) with
  | none => (.missing, dir)
  | some _ => (.removed, dir.erase (fileName id))

/-- `filetime_set_mtime_best_effort`: the file is written over with its own contents. -/
def rewrite (dir : Directory) (id : String) : Directory :=
  match dir.lookup (fileName id) with
  | none => dir
  | some text => dir.insert (fileName id) text

/-- `load_all`: files of another extension are left out, and those that do not parse. -/
def loadAll (toml : Toml) (order : Order String) (dir : Directory) : List ConnectionProfile :=
  ((order.arrange dir.keys).filter fun name => FileName.extension name = some "toml").filterMap
    fun name => (dir.lookup name).bind toml.decode

/-! ## Names -/

theorem toList_fileName (id : String) : (fileName id).toList = id.toList ++ '.' :: "toml".toList :=
  String.toList_append

theorem fileName_inj {id id' : String} : fileName id = fileName id' ↔ id = id' := by
  rw [← String.toList_inj, toList_fileName, toList_fileName, List.append_left_inj,
    String.toList_inj]

theorem extension_fileName {id : String} (h : validateIdentifier id = .ok ()) :
    FileName.extension (fileName id) = some "toml" := by
  have hdot : '.' ∉ "toml".toList := by decide
  rw [FileName.extension, toList_fileName,
    FileName.stemAndExtension_append (of_validateIdentifier h).1 hdot (by decide)]
  rfl

theorem fileName_ne_tmp (id id' : String) :
    fileName id' ≠ FileName.withExtension (fileName id) "toml.tmp" := by
  intro heq
  have hlast := congrArg (fun name => name.toList.getLast?) heq
  simp [toList_fileName, FileName.withExtension] at hlast

theorem lookup_replace_file (dir : Directory) (id text id' : String) :
    (dir.replace (FileName.withExtension (fileName id) "toml.tmp") (fileName id) text).lookup
      (fileName id') = if id' = id then some text else dir.lookup (fileName id') := by
  rw [Directory.lookup_replace]
  by_cases hid : id' = id
  · rw [if_pos (congrArg fileName hid), if_pos hid]
  · rw [if_neg (mt fileName_inj.mp hid), if_neg (fileName_ne_tmp id id'), if_neg hid]

/-! ## What the directory holds -/

variable {toml : Toml} {dir : Directory} {p q : ConnectionProfile}
  {profiles : List ConnectionProfile}

/-- The file of the profile is as `save` wrote it. -/
def Saved (toml : Toml) (dir : Directory) (p : ConnectionProfile) : Prop :=
  validateIdentifier p.id = .ok () ∧
    ∃ text, toml.encode p = .ok text ∧ dir.lookup (fileName p.id) = some text

/-- Every file of the directory was written by `save`. -/
def AllSaved (toml : Toml) (dir : Directory) : Prop :=
  ∀ name text, dir.lookup name = some text →
    ∃ p, validateIdentifier p.id = .ok () ∧ toml.encode p = .ok text ∧ name = fileName p.id

structure Keeps (toml : Toml) (dir : Directory) (profiles : List ConnectionProfile) : Prop where
  allSaved : AllSaved toml dir
  nodup : (profiles.map (·.id)).Nodup
  mem_iff : ∀ p, p ∈ profiles ↔ Saved toml dir p

section

variable (h : AllSaved toml dir)
include h

theorem AllSaved.decode {name : String}
    (hp : (dir.lookup name).bind toml.decode = some p) :
    validateIdentifier p.id = .ok () ∧ name = fileName p.id ∧ Saved toml dir p := by
  obtain ⟨text, htext, hdec⟩ := Option.bind_eq_some_iff.mp hp
  obtain ⟨q, hvalid, henc, rfl⟩ := h name text htext
  rw [toml.decode_of_encode henc, Option.some.injEq] at hdec
  subst hdec
  exact ⟨hvalid, rfl, hvalid, text, henc, htext⟩

theorem mem_loadAll (order : Order String) : p ∈ loadAll toml order dir ↔ Saved toml dir p := by
  rw [loadAll, List.mem_filterMap]
  constructor
  · rintro ⟨name, -, hp⟩
    exact (h.decode hp).2.2
  · rintro ⟨hvalid, text, henc, htext⟩
    refine ⟨fileName p.id, List.mem_filter.mpr ⟨?_, ?_⟩, ?_⟩
    · refine order.mem_arrange.mpr (AList.mem_keys.mp (AList.lookup_isSome.mp ?_))
      rw [htext]
      rfl
    · exact decide_eq_true (extension_fileName hvalid)
    · rw [htext]
      exact toml.decode_of_encode henc

theorem nodup_loadAll (order : Order String) : ((loadAll toml order dir).map (·.id)).Nodup := by
  rw [loadAll, List.map_filterMap]
  refine List.Nodup.filterMap ?_ (((order.perm _).nodup_iff.mpr dir.nodupKeys).filter _)
  intro name name' id hid hid'
  obtain ⟨p, hp, rfl⟩ := Option.map_eq_some_iff.mp hid
  obtain ⟨p', hp', hids⟩ := Option.map_eq_some_iff.mp hid'
  rw [(h.decode hp).2.1, (h.decode hp').2.1, hids]

theorem keeps_loadAll (order : Order String) : Keeps toml dir (loadAll toml order dir) :=
  ⟨h, nodup_loadAll h order, fun _ => mem_loadAll h order⟩

end

theorem Keeps.perm_loadAll (h : Keeps toml dir profiles) (order : Order String) :
    profiles.Perm (loadAll toml order dir) := by
  refine (List.perm_ext_iff_of_nodup (List.Nodup.of_map _ h.nodup)
    (List.Nodup.of_map _ (nodup_loadAll h.allSaved order))).mpr fun p => ?_
  rw [h.mem_iff, mem_loadAll h.allSaved]

/-! ## One operation at a time -/

def put (profiles : List ConnectionProfile) (p : ConnectionProfile) : List ConnectionProfile :=
  profiles.filter (fun q => q.id ≠ p.id) ++ [p]

def without (profiles : List ConnectionProfile) (id : String) : List ConnectionProfile :=
  profiles.filter fun q => q.id ≠ id

theorem mem_without {id : String} : q ∈ without profiles id ↔ q ∈ profiles ∧ q.id ≠ id := by
  simp [without]

theorem mem_put : q ∈ put profiles p ↔ (q ∈ profiles ∧ q.id ≠ p.id) ∨ q = p := by
  simp [put]

theorem nodup_without (h : (profiles.map (·.id)).Nodup) (id : String) :
    ((without profiles id).map (·.id)).Nodup := h.sublist (List.filter_sublist.map _)

theorem nodup_put (h : (profiles.map (·.id)).Nodup) (p : ConnectionProfile) :
    ((put profiles p).map (·.id)).Nodup := by
  rw [put, List.map_append]
  refine (nodup_without h p.id).append (List.nodup_singleton _) ?_
  intro id hid hid'
  obtain ⟨q, hq, rfl⟩ := List.mem_map.mp hid
  exact (mem_without.mp hq).2 (List.mem_singleton.mp hid')

theorem Keeps.writeAtomic (h : Keeps toml dir profiles)
    (hvalid : validateIdentifier p.id = .ok ()) :
    (∃ e, writeAtomic toml dir p = (.error e, dir)) ∨
      ∃ dir', Profiles.writeAtomic toml dir p = (.ok (), dir') ∧
        Keeps toml dir' (put profiles p) := by
  unfold Profiles.writeAtomic
  cases henc : toml.encode p with
  | error e => exact .inl ⟨_, rfl⟩
  | ok text =>
    have hlk := lookup_replace_file dir p.id text
    refine .inr ⟨_, rfl, fun name text' hname => ?_, nodup_put h.nodup p, fun q => ?_⟩
    · rw [Directory.lookup_replace] at hname
      split at hname
      · rename_i heq
        exact ⟨p, hvalid, henc.trans (congrArg _ (Option.some.inj hname)), heq⟩
      · split at hname
        · cases hname
        · exact h.allSaved name text' hname
    · rw [mem_put, h.mem_iff, Saved, Saved, hlk]
      by_cases hid : q.id = p.id
      · rw [if_pos hid]
        constructor
        · rintro (⟨-, hne⟩ | rfl)
          · exact absurd hid hne
          · exact ⟨hvalid, text, henc, rfl⟩
        · rintro ⟨-, text', hq, htext⟩
          rw [Option.some.injEq] at htext
          subst htext
          refine .inr (Option.some.inj ?_)
          rw [← toml.decode_of_encode hq, toml.decode_of_encode henc]
      · rw [if_neg hid]
        constructor
        · rintro (⟨hq, -⟩ | rfl)
          · exact hq
          · exact absurd rfl hid
        · exact fun hq => .inl ⟨hq, hid⟩

theorem Keeps.erase (h : Keeps toml dir profiles) (id : String) :
    Keeps toml (dir.erase (fileName id)) (without profiles id) := by
  refine ⟨fun name text hname => ?_, nodup_without h.nodup id, fun q => ?_⟩
  · rw [Table.lookup_erase_eq] at hname
    split at hname
    · cases hname
    · exact h.allSaved name text hname
  · rw [mem_without, h.mem_iff, Saved, Saved, Table.lookup_erase_eq]
    by_cases hid : q.id = id
    · simp [hid]
    · rw [if_neg (mt fileName_inj.mp hid)]
      exact and_iff_left hid

theorem Keeps.without_of_missing (h : Keeps toml dir profiles) {id : String}
    (hmis : dir.lookup (fileName id) = none ∨ validateIdentifier id ≠ .ok ()) :
    without profiles id = profiles := by
  refine List.filter_eq_self.mpr fun q hq => decide_eq_true fun hid => ?_
  obtain ⟨hvalid, text, -, htext⟩ := (h.mem_iff q).mp hq
  rw [hid] at hvalid htext
  rcases hmis with hmis | hinvalid
  · rw [hmis] at htext
    cases htext
  · exact hinvalid hvalid

theorem lookup_rewrite (dir : Directory) (id name : String) :
    (rewrite dir id).lookup name = dir.lookup name := by
  unfold rewrite
  split
  · rfl
  · rename_i text htext
    rw [Table.lookup_insert_eq]
    split
    · rename_i heq
      rw [heq, htext]
    · rfl

theorem Keeps.rewrite (h : Keeps toml dir profiles) (id : String) :
    Keeps toml (rewrite dir id) profiles := by
  refine ⟨fun name text hname => ?_, h.nodup, fun q => ?_⟩
  · rw [lookup_rewrite] at hname
    exact h.allSaved name text hname
  · rw [h.mem_iff, Saved, Saved, lookup_rewrite]

end Profiles

end MitosNetwork
