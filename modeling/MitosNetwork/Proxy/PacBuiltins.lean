import MitosNetwork.Ip.Address

/-!
# PAC values and helper functions

The values of the PAC interpreter and the helper functions that scripts may call, from
`src/proxy/pac.rs`. Numbers are `f64` there; the interpreter uses them through the few operations of
`Double`, so the model is generic in the number type. What the helpers ask the system for, name
resolution, the primary address and the clock, is a parameter.
-/

namespace MitosNetwork.Pac

variable (sys : System)

/-- The operations on `f64` that scripts can reach. -/
class Double (ν : Type) where
  ofNat : ℕ → ν
  nan : ν
  add : ν → ν → ν
  /-- Comparisons of the hardware: all of them fail on a NaN. -/
  eq : ν → ν → Bool
  lt : ν → ν → Bool
  le : ν → ν → Bool
  /-- `str::parse::<f64>`. -/
  parse : String → Option ν
  /-- Without a fraction as `{:.0}`, else by `Display`. -/
  display : ν → String
  /-- The saturating cast `as u32`. -/
  toU32 : ν → UInt32

inductive Value (ν : Type) where
  | str (s : String)
  | num (n : ν)
  | bool (b : Bool)
  | null
deriving DecidableEq

section Values

variable {ν : Type} [Double ν]

def Value.truthy : Value ν → Bool
  | str s => !s.isEmpty
  | num n => !Double.eq n (Double.ofNat 0)
  | bool b => b
  | null => false

def Value.asString : Value ν → String
  | str s => s
  | num n => Double.display n
  | bool b => if b then "true" else "false"
  | null => "null"

def Value.asNum : Value ν → ν
  | num n => n
  | str s => (Double.parse (Text.trim s)).getD Double.nan
  | bool b => Double.ofNat (if b then 1 else 0)
  | null => Double.ofNat 0

/-- `values_eq`. -/
def valuesEq : Value ν → Value ν → Bool
  | .num x, .num y => Double.eq x y
  | .bool x, .bool y => x == y
  | .null, .null => true
  | a, b => a.asString == b.asString

end Values

structure System where
  /-- `to_socket_addrs` on a host name. -/
  socketAddrs : String → Option (List IpAddr)
  /-- The source address of the kernel's route to an outside address. -/
  localAddr : Option IpAddr
  /-- Seconds since the epoch. -/
  unixSecs : ℕ

/-! ## Names and addresses -/

def toAsciiLowercase (s : String) : String := String.ofList (s.toList.map Char.toLower)

def toAsciiUppercase (s : String) : String := String.ofList (s.toList.map Char.toUpper)

/-- `resolve_host`: a literal as it is, else the first IPv4 address of the name or its first one. -/
def resolveHost (host : String) : Option String :=
  match IpAddr.parse host.toList with
  | some ip => some ip.display
  | none =>
    (sys.socketAddrs host).bind fun addrs =>
      ((addrs.find? IpAddr.isIpv4).or addrs.head?).map IpAddr.display

/-- `my_ip_address`. -/
def myIpAddress : String :=
  match sys.localAddr with
  | some ip => ip.display
  | none => "127.0.0.1"

/-- `str::parse::<Ipv4Addr>`. -/
def parseIpv4 (s : String) : Option Ipv4Addr := Reader.parseWith IpParser.ipv4Addr s.toList

/-- `is_in_net`. -/
def isInNet (ip pattern mask : String) : Bool :=
  match parseIpv4 ip, parseIpv4 pattern, parseIpv4 mask with
  | some ip, some pattern, some mask => (ip.bits &&& mask.bits) == (pattern.bits &&& mask.bits)
  | _, _, _ => false

/-- The alternatives of a `*`: it takes none, or one more byte. -/
def starMatch (rest : List UInt8 → Bool) : List UInt8 → Bool
  | [] => rest []
  | b :: s => rest (b :: s) || starMatch rest s

/-- The inner function of `sh_exp_match`, with the pattern first. -/
def globMatch : List UInt8 → List UInt8 → Bool
  | [], s => s.isEmpty
  | p :: ps, s =>
    if p = 42 then starMatch (globMatch ps) s
    else
      match s with
      | [] => false
      | b :: s => (p = 63 || p = b) && globMatch ps s

/-- `sh_exp_match`. -/
def shExpMatch (s pattern : String) : Bool :=
  globMatch pattern.toUTF8.data.toList s.toUTF8.data.toList

/-! ## The clock -/

/-- `now_unix_days_and_secs`. -/
def unixDaysAndSecs : ℤ × ℕ := (sys.unixSecs / 86400, sys.unixSecs % 86400)

/-- `civil_from_days`: year, month and day of a day number. -/
def civilFromDays (z : ℤ) : ℤ × ℕ × ℕ :=
  let z := z + 719468
  let era := (if 0 ≤ z then z else z - 146096).tdiv 146097
  let doe := (z - era * 146097).toNat
  let yoe := (doe - doe / 1460 + doe / 36524 - doe / 146096) / 365
  let y := (yoe : ℤ) + era * 400
  let doy := doe - (365 * yoe + yoe / 4 - yoe / 100)
  let mp := (5 * doy + 2) / 153
  let d := doy - (153 * mp + 2) / 5 + 1
  let m := if mp < 10 then mp + 3 else mp - 9
  (if m ≤ 2 then y + 1 else y, m, d)

/-- `weekday_from_days`; Sunday is 0 and day 0 was a Thursday. -/
def weekdayFromDays (z : ℤ) : ℕ := ((z % 7 + 4) % 7).toNat

def weekdays : List String := ["SUN", "MON", "TUE", "WED", "THU", "FRI", "SAT"]

/-- A range that may wrap around; one bound alone is a single value. -/
def inRange (x low : ℕ) : Option ℕ → Bool
  | none => x == low
  | some high => if low ≤ high then low ≤ x && x ≤ high else low ≤ x || x ≤ high

section Builtins

variable {ν : Type} [Double ν]

def weekdayIndex (v : Value ν) : Option ℕ :=
  let i := weekdays.findIdx (· == toAsciiUppercase v.asString)
  if i < weekdays.length then some i else none

/-- `weekday_range`. -/
def weekdayRange (args : List (Value ν)) : Bool :=
  match args.head?.bind weekdayIndex with
  | none => false
  | some d1 =>
    inRange (weekdayFromDays (unixDaysAndSecs sys).1) d1 ((args.drop 1).head?.bind weekdayIndex)

/-- The shared part of `date_range` and `time_range`: numeric bounds. -/
def numRange (x : ℕ) (args : List (Value ν)) : Bool :=
  match args.head? with
  | none => false
  | some v => inRange x (Double.toU32 v.asNum).toNat
      ((args.drop 1).head?.map fun w => (Double.toU32 w.asNum).toNat)

def dateRange (args : List (Value ν)) : Bool :=
  numRange (civilFromDays (unixDaysAndSecs sys).1).2.2 args

def timeRange (args : List (Value ν)) : Bool :=
  numRange ((unixDaysAndSecs sys).2 / 3600) args

/-- `arg_str`. -/
def argStr (args : List (Value ν)) (i : ℕ) : Result String :=
  match args.drop i with
  | v :: _ => .ok v.asString
  | [] => .error (.other ("PAC builtin missing argument " ++ toString i))

def endsWith (s suffix : String) : Bool := suffix.toList.isSuffixOf s.toList

/-- `call_builtin`; `none` for any other name. -/
def callBuiltin (name : String) (args : List (Value ν)) :
    Result (Option (Value ν)) := do
  if name = "isPlainHostName" then
    let host ← argStr args 0
    return some (.bool ('.' ∉ host.toList))
  else if name = "dnsDomainIs" then
    let host ← argStr args 0
    let domain ← argStr args 1
    return some (.bool (endsWith (toAsciiLowercase host) (toAsciiLowercase domain)))
  else if name = "localHostOrDomainIs" then
    let host := toAsciiLowercase (← argStr args 0)
    let hostdom := toAsciiLowercase (← argStr args 1)
    return some (.bool (host = hostdom ||
      ('.' ∉ host.toList && (host ++ ".").toList.isPrefixOf hostdom.toList)))
  else if name = "isResolvable" then
    let host ← argStr args 0
    return some (.bool (resolveHost sys host).isSome)
  else if name = "dnsResolve" then
    let host ← argStr args 0
    return some (((resolveHost sys host).map Value.str).getD .null)
  else if name = "myIpAddress" then return some (.str (myIpAddress sys))
  else if name = "dnsDomainLevels" then
    let host ← argStr args 0
    return some (.num (Double.ofNat (host.toList.count '.')))
  else if name = "isInNet" then
    let host ← argStr args 0
    let pattern ← argStr args 1
    let mask ← argStr args 2
    return some (.bool
      (match resolveHost sys host with
        | some ip => isInNet ip pattern mask
        | none => false))
  else if name = "shExpMatch" then
    let s ← argStr args 0
    let pattern ← argStr args 1
    return some (.bool (shExpMatch s pattern))
  else if name = "weekdayRange" then return some (.bool (weekdayRange sys args))
  else if name = "dateRange" then return some (.bool (dateRange sys args))
  else if name = "timeRange" then return some (.bool (timeRange sys args))
  else if name = "alert" then return some .null
  else return none

end Builtins

end MitosNetwork.Pac
