import MitosNetwork.Sharing.Hotspot

/-!
# What hostapd reads in its configuration

`render_config` writes one setting to a line, with the interface, the SSID and the passphrase as
they were given. hostapd takes the file line by line, skips comments and cuts every other line at
its first `=`. `config_read_iff` says when it reads the settings that were meant: an interface name
and an SSID that pass the checks stay on their line, and a passphrase does if it has no newline,
which its check does not ask for.
-/

namespace MitosNetwork.Hotspot

open Validation List

variable {passphrase : Option String} {interface ssid : String} {p : String × String}

/-! ## Settings and lines -/

def isComment (line : List Char) : Bool := line.head? == some '#'

/-- What a text is read as: every line that is no comment, cut at its first `=`. -/
def readSettings (text : String) : List (Option (String × String)) :=
  ((Lines.split '\n' text.toList).filter (!isComment ·)).map fun line =>
    (Text.splitOnce '=' line).map fun p => (String.ofList p.1, String.ofList p.2)

/-- The settings that are meant. -/
def intended (interface ssid : String) (passphrase : Option String) : List (String × String) :=
  [("interface", interface), ("driver", "nl80211"), ("ssid", ssid), ("hw_mode", "g"),
    ("channel", "6"), ("ieee80211n", "1"), ("wmm_enabled", "1")] ++
  match passphrase with
  | some pass =>
    [("wpa", "2"), ("wpa_passphrase", pass), ("wpa_key_mgmt", "WPA-PSK"), ("rsn_pairwise", "CCMP")]
  | none => []

def settingLine (p : String × String) : List Char := p.1.toList ++ '=' :: p.2.toList

def openComment : List Char := "# open network: no wpa_passphrase configured".toList

def configLines (interface ssid : String) (passphrase : Option String) : List (List Char) :=
  (intended interface ssid passphrase).map settingLine ++
    if passphrase.isSome then [] else [openComment]

theorem toList_openComment :
    "# open network: no wpa_passphrase configured\n".toList = openComment ++ ['\n'] := by
  delta openComment
  simp only [String.reduceToList, cons_append, nil_append]

theorem toList_renderConfig :
    (renderConfig interface ssid passphrase).toList =
      Lines.file '\n' (configLines interface ssid passphrase) := by
  unfold renderConfig
  cases passphrase with
  | none =>
    simp only [String.toList_append, String.reduceToList, toList_openComment, Lines.file,
      configLines, intended, settingLine, map_cons, map_nil, flatMap_cons,
      flatMap_nil, append_assoc, cons_append, nil_append,
      Option.isSome_none, Bool.false_eq_true, if_false]
  | some pass =>
    simp only [String.toList_append, String.reduceToList, Lines.file, configLines, intended,
      settingLine, map_cons, map_nil, flatMap_cons, flatMap_nil, append_assoc, cons_append,
      nil_append, append_nil, Option.isSome_some, if_true]

/-! ## Reading a setting -/

def keys : List String :=
  ["interface", "driver", "ssid", "hw_mode", "channel", "ieee80211n", "wmm_enabled", "wpa",
    "wpa_passphrase", "wpa_key_mgmt", "rsn_pairwise"]

theorem fst_mem_keys (h : p ∈ intended interface ssid passphrase) : p.1 ∈ keys := by
  have hkeys : ∀ key ∈ (intended interface ssid passphrase).map Prod.fst, key ∈ keys := by
    cases passphrase with
    | none => exact fun key hkey => mem_append_left _ hkey
    | some pass => exact fun key hkey => hkey
  exact hkeys _ (mem_map_of_mem h)

theorem of_mem_keys {key : String} (h : key ∈ keys) :
    isComment key.toList = false ∧ key.toList ≠ [] ∧ '=' ∉ key.toList ∧ OneLine key := by
  have hall : ∀ key ∈ keys,
      isComment key.toList = false ∧ key.toList ≠ [] ∧ '=' ∉ key.toList ∧ OneLine key := by
    decide +kernel
  exact hall key h

theorem splitOnce_settingLine (h : p.1 ∈ keys) :
    isComment (settingLine p) = false ∧
      Text.splitOnce '=' (settingLine p) = some (p.1.toList, p.2.toList) := by
  obtain ⟨hcom, hne, heq, -⟩ := of_mem_keys h
  refine ⟨?_, Text.splitOnce_append heq _⟩
  obtain ⟨c, cs, hcs⟩ := exists_cons_of_ne_nil hne
  rw [hcs] at hcom
  rw [settingLine, hcs]
  exact hcom

theorem newline_notMem_settingLine (hkey : p.1 ∈ keys) : '\n' ∉ settingLine p ↔ OneLine p.2 := by
  have honeLine := (of_mem_keys hkey).2.2.2
  simp only [settingLine, OneLine] at honeLine ⊢
  simp [honeLine]

/-! ## The whole file -/

theorem readSettings_renderConfig (h : ∀ p ∈ intended interface ssid passphrase, OneLine p.2) :
    readSettings (renderConfig interface ssid passphrase) =
      (intended interface ssid passphrase).map some := by
  have hls : ∀ l ∈ configLines interface ssid passphrase, '\n' ∉ l := by
    intro l hl
    rcases mem_append.mp hl with hl | hl
    · obtain ⟨p, hp, rfl⟩ := mem_map.mp hl
      exact (newline_notMem_settingLine (fst_mem_keys hp)).mpr (h p hp)
    · split at hl
      · cases hl
      · rw [mem_singleton.mp hl]
        decide +kernel
  -- The comment of an open network is the only line that is skipped.
  have hkept : (configLines interface ssid passphrase).filter (!isComment ·) =
      (intended interface ssid passphrase).map settingLine := by
    have hsettings : ∀ l ∈ (intended interface ssid passphrase).map settingLine,
        (!isComment l) = true := by
      intro l hl
      obtain ⟨p, hp, rfl⟩ := mem_map.mp hl
      rw [(splitOnce_settingLine (fst_mem_keys hp)).1]
      rfl
    have hcom : (if passphrase.isSome then [] else [openComment]).filter (!isComment ·) =
        [] := by
      split
      · rfl
      · decide +kernel
    rw [configLines, filter_append, filter_eq_self.mpr hsettings, hcom, append_nil]
  rw [readSettings, toList_renderConfig, Lines.split_file_of_notMem hls, hkept, map_map]
  refine map_congr_left fun p hp => ?_
  show (Text.splitOnce '=' (settingLine p)).map _ = some p
  rw [(splitOnce_settingLine (fst_mem_keys hp)).2, Option.map_some, String.ofList_toList,
    String.ofList_toList]

theorem oneLine_of_mem_readSettings {text : String} (h : some p ∈ readSettings text) :
    OneLine p.2 := by
  obtain ⟨line, hline, hcut⟩ := mem_map.mp h
  obtain ⟨⟨key, value⟩, hsp, rfl⟩ := Option.map_eq_some_iff.mp hcut
  have hnl := Lines.notMem_of_mem_split (mem_of_mem_filter hline)
  rw [Text.splitOnce_eq_some hsp, mem_append, mem_cons] at hnl
  rw [OneLine, String.toList_ofList]
  exact fun hmem => hnl (.inr (.inr hmem))

theorem oneLine_of_mem_intended (hif : OneLine interface) (hssid : OneLine ssid)
    (hpass : ∀ pass ∈ passphrase, OneLine pass) :
    ∀ p ∈ intended interface ssid passphrase, OneLine p.2 := by
  simp only [intended, cons_append, nil_append, forall_mem_cons]
  refine ⟨hif, by decide, hssid, by decide, by decide, by decide, by decide, ?_⟩
  cases passphrase with
  | none => exact fun p hp => nomatch hp
  | some pass =>
    simp only [forall_mem_cons]
    exact ⟨by decide, hpass pass rfl, by decide, by decide, fun p hp => nomatch hp⟩

/-- **hostapd reads the settings that were requested** if and only if the passphrase has no newline,
for parameters that pass the checks of `wifi::hotspot::start`. -/
theorem config_read_iff {interface ssid : String} {passphrase : Option String}
    (hvalid : validateHotspot interface ssid passphrase = .ok ()) :
    readSettings (renderConfig interface ssid passphrase) =
        (intended interface ssid passphrase).map some ↔
      ∀ pass ∈ passphrase, OneLine pass := by
  obtain ⟨hinterface, hssid⟩ := oneLine_of_validateHotspot hvalid
  constructor
  · rintro hread pass rfl
    have hmem : ("wpa_passphrase", pass) ∈ intended interface ssid (some pass) := by
      simp [intended]
    exact oneLine_of_mem_readSettings (hread ▸ mem_map_of_mem hmem)
  · exact fun hpass => readSettings_renderConfig (oneLine_of_mem_intended hinterface hssid hpass)

theorem config_read_cafe :
    validateHotspot "wlan0" "Cafe" (some "with milk") = .ok () ∧
      readSettings (renderConfig "wlan0" "Cafe" (some "with milk")) =
        (intended "wlan0" "Cafe" (some "with milk")).map some := by
  have hvalid : validateHotspot "wlan0" "Cafe" (some "with milk") = .ok () := by decide +kernel
  refine ⟨hvalid, (config_read_iff hvalid).mpr ?_⟩
  decide +kernel

/-- A passphrase that is accepted and adds a setting of its own. -/
theorem setting_added :
    validateHotspot "wlan0" "Cafe" (some "password\nignore_broadcast_ssid=1") = .ok () ∧
      readSettings (renderConfig "wlan0" "Cafe" (some "password\nignore_broadcast_ssid=1")) =
        ([("interface", "wlan0"), ("driver", "nl80211"), ("ssid", "Cafe"), ("hw_mode", "g"),
          ("channel", "6"), ("ieee80211n", "1"), ("wmm_enabled", "1"), ("wpa", "2"),
          ("wpa_passphrase", "password"), ("ignore_broadcast_ssid", "1"),
          ("wpa_key_mgmt", "WPA-PSK"), ("rsn_pairwise", "CCMP")].map some) := by
  refine ⟨by decide +kernel, ?_⟩
  decide +kernel

end MitosNetwork.Hotspot
