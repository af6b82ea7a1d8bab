import MitosNetwork.Common.Steps
import MitosNetwork.Common.Text
import MitosNetwork.Errors.Error

/-!
# OpenVPN

`src/vpn/openvpn.rs`: how `connect` starts openvpn and cleans up when a step fails, and the reader
of the management connection, which reports the outcome to `connect` and then keeps the status of
the session. What is created on the way is in `Left`; removing it and killing a child succeeds.
-/

namespace MitosNetwork.OpenVpn

open Steps

/-! ## The reader of the management connection -/

structure SessionStatus where
  state : String
  ifname : Option String

inductive MgmtEvent where
  | connected (ifname : Option String)
  | failed (message : String)

/-- The status, whether `initial_tx` is still there, and what was sent on it. -/
structure Reader where
  status : SessionStatus
  waiting : Bool
  sent : List MgmtEvent

namespace Reader

def new : Reader := ⟨⟨"", none⟩, true, []⟩

def send (r : Reader) (event : MgmtEvent) : Reader :=
  if r.waiting then { r with waiting := false, sent := r.sent ++ [event] } else r

/-- The state of a `>STATE:` line. -/
def stateOf (line : String) : Option String := do
  let trimmed := (line.toList.reverse.dropWhile Text.isWhitespace).reverse
  let rest ← Text.stripPrefix? ">STATE:".toList trimmed
  let state ← (rest.splitOn ',')[1]?
  return String.ofList state

/-- A line, with the name that is found in the file of the `--up` script then. -/
def readLine (r : Reader) (read : String × Option String) : Reader :=
  match stateOf read.1 with
  | none => r
  | some state =>
    if state = "CONNECTED" then
      { r with status := ⟨state, read.2.or r.status.ifname⟩ }.send (.connected read.2)
    else if state = "AUTH_FAILED" ∨ state = "FATAL" then
      { r with status.state := state }.send (.failed ("openvpn reported state " ++ state))
    else { r with status.state := state }

variable (reads : List (String × Option String))

/-- `background_reader`, for the lines up to the end or an error. -/
def background : Reader :=
  (reads.foldl readLine new).send
    (.failed "management connection closed before reaching CONNECTED")

def states : List String :=
  reads.filterMap fun read => stateOf read.1

/-- `CONNECTED` comes before all failures. -/
def Connects (states : List String) : Prop :=
  ∃ before after, states = before ++ "CONNECTED" :: after ∧
    "AUTH_FAILED" ∉ before ∧ "FATAL" ∉ before

def report (read : String × Option String) : Option MgmtEvent :=
  (stateOf read.1).bind fun state =>
    if state = "CONNECTED" then some (.connected read.2)
    else if state = "AUTH_FAILED" ∨ state = "FATAL" then
      some (.failed ("openvpn reported state " ++ state))
    else none

theorem connects_cons {state : String} {ss : List String} : Connects (state :: ss) ↔
    state = "CONNECTED" ∨ state ≠ "AUTH_FAILED" ∧ state ≠ "FATAL" ∧ Connects ss := by
  constructor
  · rintro ⟨_ | ⟨s, before⟩, after, heq, hauth, hfat⟩
    · exact .inl (List.cons.inj heq).1
    · obtain ⟨rfl, rfl⟩ := List.cons.inj heq
      simp only [List.mem_cons, not_or] at hauth hfat
      exact .inr ⟨Ne.symm hauth.1, Ne.symm hfat.1, before, after, rfl, hauth.2, hfat.2⟩
  · rintro (rfl | ⟨hauth, hfat, before, after, rfl, hauth', hfatal'⟩)
    · exact ⟨[], ss, rfl, by simp, by simp⟩
    · refine ⟨state :: before, after, rfl, ?_, ?_⟩
      · simp [hauth.symm, hauth']
      · simp [hfat.symm, hfatal']

theorem readLine_eq (r : Reader) (read : String × Option String) :
    (r.readLine read).status.state = (stateOf read.1).getD r.status.state ∧
    (r.readLine read).waiting = (r.waiting && (report read).isNone) ∧
    (r.readLine read).sent = r.sent ++ if r.waiting then (report read).toList else [] := by
  unfold readLine report
  cases stateOf read.1 with
  | none => simp
  | some state =>
    simp only [Option.bind_some]
    split
    · cases r.waiting <;> simp [send]
    · split
      · cases r.waiting <;> simp [send]
      · simp

/-- After some lines the first report has been sent, if there was one to send. -/
theorem foldl_readLine (r : Reader) (reads : List (String × Option String)) :
    (reads.foldl readLine r).status.state = (states reads).getLastD r.status.state ∧
    (reads.foldl readLine r).waiting = (r.waiting && (reads.filterMap report).isEmpty) ∧
    (reads.foldl readLine r).sent =
      r.sent ++ if r.waiting then (reads.filterMap report).take 1 else [] := by
  induction reads generalizing r with
  | nil => simp [states]
  | cons read reads ih =>
    obtain ⟨hst, hwai, hsent⟩ := readLine_eq r read
    obtain ⟨hstate', hwaiting', hsent'⟩ := ih (r.readLine read)
    rw [List.foldl_cons, hstate', hwaiting', hsent', hst, hwai, hsent]
    refine ⟨?_, ?_, ?_⟩
    · rw [states, states, List.filterMap_cons]
      cases stateOf read.1 with
      | none => rfl
      | some state => exact List.getLastD_cons.symm
    · cases hr : report read <;> simp [hr]
    · cases hr : report read <;> cases r.waiting <;> simp [hr]

/-- The first report, if the connection is reported as closed at last. -/
theorem head_report_iff (closed : String) :
    (∃ ifname, (reads.filterMap report ++ [MgmtEvent.failed closed]).head? =
      some (.connected ifname)) ↔ Connects (states reads) := by
  induction reads with
  | nil => simp [states, Connects]
  | cons read reads ih =>
    cases hst : stateOf read.1 with
    | none => simpa [states, report, hst] using ih
    | some state =>
      have hstates : states (read :: reads) = state :: states reads := by simp [states, hst]
      rw [hstates, connects_cons, ← ih, List.filterMap_cons, report, hst]
      by_cases hc : state = "CONNECTED"
      · simp [hc]
      · by_cases hf : state = "AUTH_FAILED" ∨ state = "FATAL"
        · rcases hf with rfl | rfl <;> simp
        · simp [hc, not_or.mp hf]

/-- **The management connection.** Whatever lines come and whenever they end, one event is sent. It
is `Connected` exactly if `CONNECTED` comes before every `AUTH_FAILED` and `FATAL`, and the status
is the last state that came. -/
theorem background_reports_once (reads : List (String × Option String)) :
    ∃ event, (background reads).sent = [event] ∧
      ((∃ ifname, event = .connected ifname) ↔ Connects (states reads)) ∧
      (background reads).status.state = (states reads).getLastD "" := by
  obtain ⟨hstate, hwaiting, hsent⟩ := foldl_readLine new reads
  have hhead := head_report_iff reads
    "management connection closed before reaching CONNECTED"
  unfold background send
  cases hreports : reads.filterMap report with
  | nil =>
    rw [hreports] at hwaiting hsent hhead
    rw [if_pos (show (reads.foldl readLine new).waiting = true from hwaiting)]
    refine ⟨_, by rw [hsent]; rfl, ?_, hstate⟩
    simpa using hhead
  | cons event rest =>
    rw [hreports] at hwaiting hsent hhead
    have hnot : ¬(reads.foldl readLine new).waiting = true := by simp [hwaiting]
    rw [if_neg hnot]
    refine ⟨event, hsent, ?_, hstate⟩
    simpa using hhead

end Reader

/-! ## Connecting -/

/-- What becomes of one attempt to create a temporary file or directory. -/
inductive Attempt where
  | nameless (e : NetworkError)
  | created (random : String)
  | taken
  | failed (message : String)

/-- `create_secret_temp_dir` and `create_secret_temp_file`, from the outcomes of the attempts. -/
def createSecretTemp (what suffix : String) (attempts : ℕ → Attempt) : ℕ → Result String
  | 0 => .error (.other ("could not create a temp " ++ what ++ " after several attempts"))
  | n + 1 =>
    match attempts n with
    | .nameless e => .error e
    | .created random => .ok ("mitos-ovpn-" ++ random ++ "." ++ suffix)
    | .taken => createSecretTemp what suffix attempts n
    | .failed message => .error (.io message)

/-- The outcomes of the steps of `connect`. -/
structure Outcomes where
  isFile : Bool
  dirAttempts : ℕ → Attempt
  scripts : Result Unit
  bound : Except String Unit
  username : Result (Option String)
  password : Result (Option String)
  fileAttempts : ℕ → Attempt
  written : Result Unit
  spawned : Except String Unit
  accepted : Result Unit
  stateOn : Result Unit
  cloned : Result Unit
  event : Option MgmtEvent

variable (o : Outcomes)

/-- `create_secret_temp_dir("mitos-ovpn")`. -/
def Outcomes.workdir : Result String :=
  createSecretTemp "directory" "d" o.dirAttempts 4

/-- `create_secret_temp_file("mitos-ovpn", "auth")`. -/
def Outcomes.authFile : Result String :=
  createSecretTemp "file" "auth" o.fileAttempts 4

/-- What a call of `connect` has left: the paths it created, those of them that a thread is going to
remove, and whether its child is running. -/
structure Left where
  paths : List String
  doomed : List String
  running : Bool
deriving DecidableEq

namespace Left

@[simp] def create (path : String) (left : Left) : Left :=
  { left with paths := left.paths ++ [path] }

/-- `remove_dir_all`. -/
@[simp] def remove (path : String) (left : Left) : Left :=
  { left with paths := left.paths.filter (· ≠ path) }

@[simp] def Clean (left : Left) : Prop :=
  (∀ path ∈ left.paths, path ∈ left.doomed) ∧ left.running = false

end Left

abbrev Run := Steps NetworkError Left

/-- The file with the credentials, if both are stored. Its errors are returned as they are. -/
def credentials : Run (Option String) := do
  let user ← attempt o.username
  let pass ← attempt o.password
  match user, pass with
  | some _, some _ =>
    let path ← attempt o.authFile
    modify (Left.create path)
    attempt o.written
    return some path
  | _, _ => return none

/-- `connect` once the child is running, with the name of the interface as its result. -/
def await (profileId workdir : String) (o : Outcomes) : Run String := do
  let killed : Left → Left := fun left => Left.remove workdir { left with running := false }
  orElse o.accepted killed
  orElse o.stateOn killed
  orElse o.cloned killed
  match o.event with
  | some (.connected ifname) => return ifname.getD ("openvpn-" ++ profileId)
  | some (.failed msg) => orElse (.error (.vpn ("openvpn failed to connect: " ++ msg))) killed
  | none => orElse (.error (.vpn "timed out waiting for openvpn to report CONNECTED")) killed

/-- `connect`. -/
def connect (configPath profileId : String) (o : Outcomes) : Run String := do
  if !o.isFile then throw (.vpn ("OpenVPN config '" ++ configPath ++ "' not found"))
  let workdir ← attempt o.workdir
  modify (Left.create workdir)
  let cleanup := Left.remove workdir
  orElse o.scripts cleanup
  orElse (o.bound.mapError fun e => .vpn ("binding management socket: " ++ e)) cleanup
  let userpass ← credentials o
  orElse (o.spawned.mapError fun e => .vpn ("failed to spawn openvpn: " ++ e)) cleanup
  modify fun left => { left with running := true, doomed := left.doomed ++ userpass.toList }
  await profileId workdir o

/-- The outcome of `credentials`. -/
def Outcomes.userpass : Result (Option String) := do
  let user ← o.username
  let pass ← o.password
  match user, pass with
  | some _, some _ =>
    let path ← o.authFile
    o.written
    return some path
  | _, _ => return none

/-- The directory is there, and then the credentials cannot be had, or they are in their file and no
child is spawned. -/
def Outcomes.Leaks : Prop :=
  o.isFile ∧ o.workdir.isOk ∧ o.scripts.isOk ∧ o.bound.isOk ∧
    (¬o.userpass.isOk ∨ o.userpass ≠ .ok none ∧ ¬o.spawned.isOk)

theorem authFile_ne_workdir {o : Outcomes} {dir file : String} (hdir : o.workdir = .ok dir)
    (hfile : o.authFile = .ok file) : file ≠ dir := by
  have hend {what suffix path : String} {attempts : ℕ → Attempt} {n : ℕ}
      (h : createSecretTemp what suffix attempts n = .ok path) :
      ∃ front, path = front ++ suffix := by
    induction n with
    | zero => cases h
    | succ n ih =>
      rw [createSecretTemp] at h
      split at h
      · cases h
      · exact ⟨_, (Except.ok.inj h).symm⟩
      · exact ih h
      · cases h
  obtain ⟨front, rfl⟩ := hend hdir
  obtain ⟨front', rfl⟩ := hend hfile
  intro heq
  have hlast := congrArg (fun path => path.toList.getLast?) heq
  simp at hlast

theorem run_credentials (dir : String) :
    ∃ extra, (credentials o).run ⟨[dir], [], false⟩ = (o.userpass, ⟨dir :: extra, [], false⟩) ∧
      (o.userpass = .ok none → extra = []) ∧
      ∀ path, o.userpass = .ok (some path) → extra = [path] ∧ o.authFile = .ok path := by
  unfold credentials Outcomes.userpass
  rcases o.username with e | _ | user
  · exact ⟨[], rfl, fun _ => rfl, fun _ h => by cases h⟩
  · rcases o.password with e | pass
    · exact ⟨[], rfl, fun _ => rfl, fun _ h => by cases h⟩
    · exact ⟨[], rfl, fun _ => rfl, fun _ h => by cases h⟩
  rcases o.password with e | _ | pass
  · exact ⟨[], rfl, fun _ => rfl, fun _ h => by cases h⟩
  · exact ⟨[], rfl, fun _ => rfl, fun _ h => by cases h⟩
  rcases o.authFile with e | path
  · exact ⟨[], rfl, fun _ => rfl, fun _ h => by cases h⟩
  rcases o.written with e | _
  · exact ⟨[path], rfl, (fun h => by cases h), fun _ h => by cases h⟩
  · refine ⟨[path], rfl, (fun h => by cases h), fun path' h => ?_⟩
    cases h
    exact ⟨rfl, rfl⟩

theorem leaves_await {o : Outcomes} {left : Left} {profileId workdir : String}
    (h : (Left.remove workdir { left with running := false }).Clean) :
    Leaves Left.Clean ((await profileId workdir o).run left) := by
  refine leaves_orElse (fun _ => leaves_orElse (fun _ => leaves_orElse (fun _ => ?_) h) h) h
  split
  · exact leaves_ok
  · exact leaves_error.mpr h
  · exact leaves_error.mpr h

/-- **Cleaning up.** A call of `connect` that fails leaves neither its directory nor the file with
the credentials nor a running child, if and only if it does not fail for want of the credentials or,
with credentials, because openvpn cannot be spawned. -/
theorem connect_clean_iff (configPath profileId : String) (o : Outcomes) :
    Leaves Left.Clean ((connect configPath profileId o).run ⟨[], [], false⟩) ↔ ¬o.Leaks := by
  unfold connect Outcomes.Leaks
  cases o.isFile with
  | false =>
    have hclean (e : NetworkError) :
        Leaves Left.Clean ((throw e : Run String).run ⟨[], [], false⟩) := leaves_error.mpr (by simp)
    simpa using hclean _
  | true =>
    simp only [Bool.not_true, Bool.false_eq_true, if_false, true_and]
    rcases hdir : o.workdir with e | dir
    · simp [Except.isOk, Except.toBool]
    rcases o.scripts with e | _
    · simp [Except.isOk, Except.toBool]
    rcases o.bound with e | _
    · simp [Except.isOk, Except.toBool, Except.mapError]
    obtain ⟨extra, hrun, hnone, hsome⟩ := run_credentials o dir
    simp only [run_attempt_ok, run_modify, run_orElse_ok, Except.mapError, Left.create,
      List.nil_append, Except.isOk, Except.toBool, true_and]
    rcases huserpass : o.userpass with e | _ | path
    · rw [run_bind_of_error (huserpass ▸ hrun)]
      simpa using ⟨dir, fun hne => absurd rfl hne⟩
    · rw [run_bind_of_ok (huserpass ▸ hrun), hnone huserpass]
      rcases o.spawned with e | _
      · simp
      · simpa using leaves_await (by simp)
    · obtain ⟨rfl, hpath⟩ := hsome path huserpass
      have hne := authFile_ne_workdir hdir hpath
      rw [run_bind_of_ok (huserpass ▸ hrun)]
      rcases o.spawned with e | _
      · simp [hne]
      · simpa using leaves_await (by simp)

/-- The credentials are in their file, and there is no openvpn to spawn. -/
def notInstalled : Outcomes where
  isFile := true
  dirAttempts _ := .created "1"
  scripts := .ok ()
  bound := .ok ()
  username := .ok (some "user")
  password := .ok (some "secret")
  fileAttempts _ := .created "2"
  written := .ok ()
  spawned := .error "No such file or directory (os error 2)"
  accepted := .ok ()
  stateOn := .ok ()
  cloned := .ok ()
  event := none

/-- The call fails, and the credentials stay. -/
theorem connect_leaves_credentials :
    ((connect "work.ovpn" "work" notInstalled).run ⟨[], [], false⟩).1.isOk = false ∧
      ((connect "work.ovpn" "work" notInstalled).run ⟨[], [], false⟩).2 =
        ⟨["mitos-ovpn-2.auth"], [], false⟩ := by
  decide +kernel

end MitosNetwork.OpenVpn
