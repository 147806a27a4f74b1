import HolderDaemon.Json
import HolderDaemon.Publication

/-!
The file that a daemon leaves its address and token in (`platform/ServerInfo.cpp`), and the
command line that reads it (`cli/commands/Common.cpp`).
-/

set_option autoImplicit false

open Bytes

namespace HolderDaemon

namespace ServerInfoFile

open Publication

structure ServerInfo where
  pid : Int32 := 0
  bind : Bytes
  port : Int32 := 0
  startedAt : Int64 := 0
  apiVersion : Bytes
  serverVersion : Bytes
  authToken : Bytes

/-- The object that `write_server_info` dumps. -/
def ServerInfo.json (info : ServerInfo) : Json :=
  .object
    [(ascii "pid", .int info.pid.toInt), (ascii "bind", .str info.bind),
      (ascii "port", .int info.port.toInt), (ascii "started_at", .int info.startedAt.toInt),
      (ascii "api_version", .str info.apiVersion),
      (ascii "server_version", .str info.serverVersion),
      (ascii "auth_token", .str info.authToken)]

def kHex (n : Nat) : UInt8 := UInt8.ofNat (if n < 10 then 48 + n else 87 + n)

/-- The draws are those of `std::random_device`. -/
def generateAuthToken (draws : List UInt8) : Bytes :=
  draws.flatMap fun v => [kHex (v.toNat / 16), kHex (v.toNat % 16)]

/-- A process and its count of the files it has written. -/
abbrev Writer := Nat × Nat

def uniqueTempSuffix (w : Writer) : Bytes :=
  ascii "." ++ decimal w.1 ++ ascii "." ++ decimal w.2

def tempPath (path : Bytes) (w : Writer) : Bytes := path ++ ascii ".tmp" ++ uniqueTempSuffix w

theorem dot_notMem_decimal (n : Nat) : (46 : UInt8) ∉ decimal n := by
  intro hmem
  have hdigit := List.all_eq_true.mp (all_isDigit_decimal n) 46 hmem
  exact absurd hdigit (by decide)

theorem decimal_injective {m n : Nat} (h : decimal m = decimal n) : m = n := by
  rw [← decimalValue_decimal m, h, decimalValue_decimal]

theorem tempPath_injective (path : Bytes) : Function.Injective (tempPath path) := by
  rintro ⟨pid, counter⟩ ⟨pid', counter'⟩ h
  have hsuffix := List.append_cancel_left h
  have htail : decimal pid ++ 46 :: decimal counter = decimal pid' ++ 46 :: decimal counter' := by
    simpa [uniqueTempSuffix, show ascii "." = [46] from rfl] using hsuffix
  obtain ⟨hpid, _, hcounter⟩ :=
    (List.append_cons_inj_of_notMem (dot_notMem_decimal pid) (dot_notMem_decimal counter)).mp htail
  rw [decimal_injective hpid, decimal_injective hcounter]

theorem tempPath_ne (path : Bytes) (w : Writer) : tempPath path w ≠ path := by
  intro h
  have hlength := congrArg List.length h
  simp [tempPath, uniqueTempSuffix, show ascii ".tmp" = [46, 116, 109, 112] from rfl] at hlength

/-- The daemons that write the file; `text` is what `j.dump(2)` gives for each. -/
def site (path : Bytes) (text : Writer → Bytes) : Site Writer Bytes UInt8 where
  path := path
  temp := tempPath path
  body w := text w ++ ascii "\n"
  temp_injective := tempPath_injective path
  temp_ne := tempPath_ne path

/-! The reader -/

structure DaemonConnection where
  bind : Bytes
  port : Int32
  token : Bytes
  deriving DecidableEq

def jsonString (j : Json) (key : String) (fallback : Bytes) : Except Bytes Bytes :=
  match j.field? (ascii key) with
  | none => .ok fallback
  | some .null => .ok fallback
  | some v => v.getString

/-- `get<int>()`, of an integer or a boolean. -/
def getInt : Json → Except Bytes Int32
  | .int i => .ok (Int32.ofInt i)
  | .bool b => .ok (if b then 1 else 0)
  | j => .error (Json.typeError "number" j)

def jsonInt (j : Json) (key : String) (fallback : Int32) : Except Bytes Int32 :=
  match j.field? (ascii key) with
  | none => .ok fallback
  | some .null => .ok fallback
  | some v => getInt v

def readSecureDaemonConnection (parse : Bytes → Except Bytes Json) (path content : Bytes) :
    Except Bytes DaemonConnection := do
  let json ← parse content
  let bind ← jsonString json "bind" (ascii "127.0.0.1")
  let port ← jsonInt json "port" 11499
  let token ← jsonString json "auth_token" []
  if token.isEmpty then .error (ascii "Holder daemon info file has no auth_token: " ++ path)
  else return ⟨bind, port, token⟩

theorem generateAuthToken_ne_nil {draws : List UInt8} (h : draws ≠ []) :
    generateAuthToken draws ≠ [] := by
  cases draws with
  | nil => exact absurd rfl h
  | cons v rest => simp [generateAuthToken]

/-- What a daemon wrote is read back. -/
theorem readSecureDaemonConnection_json {parse : Bytes → Except Bytes Json}
    {path content : Bytes} {info : ServerInfo} (hparse : parse content = .ok info.json)
    (htoken : info.authToken ≠ []) :
    readSecureDaemonConnection parse path content =
      .ok ⟨info.bind, info.port, info.authToken⟩ := by
  have hbind : info.json.field? (ascii "bind") = some (.str info.bind) :=
    Json.field?_object _ _
  have hport : info.json.field? (ascii "port") = some (.int info.port.toInt) :=
    Json.field?_object _ _
  have hauth : info.json.field? (ascii "auth_token") = some (.str info.authToken) :=
    Json.field?_object _ _
  have hempty : info.authToken.isEmpty = false := by
    simpa [List.isEmpty_iff] using htoken
  simp only [readSecureDaemonConnection, hparse, jsonString, jsonInt, hbind, hport, hauth,
    Json.getString, getInt, bind, Except.bind, hempty, Int32.ofInt_toInt]
  rfl

variable {ρ : Type} [DecidableEq ρ]

/-- What a daemon on the usual address writes. -/
def homeInfo : ServerInfo where
  pid := 7
  bind := ascii "127.0.0.1"
  port := 11499
  startedAt := 1
  apiVersion := ascii "1.0"
  serverVersion := ascii "1.2"
  authToken := generateAuthToken (List.replicate 16 171)

def homeText : Bytes :=
  ascii "\x7b\n  \"api_version\": \"1.0\",\n  \"auth_token\": \"" ++ homeInfo.authToken ++
    ascii "\",\n  \"bind\": \"127.0.0.1\",\n  \"pid\": 7,\n  \"port\": 11499,\n" ++
      ascii "  \"server_version\": \"1.2\",\n  \"started_at\": 1\n\x7d"

def emptyDisk : Disk Bytes UInt8 where
  entry _ := none
  content _ := []
  fresh := 0

/-- Two daemons write in turns, and the file is read between their renames. -/
def twoDaemons : List (Step Writer Unit) :=
  [.openTemp (7, 0), .write (7, 0) 40, .openTemp (8, 0), .write (7, 0) 137, .close (7, 0),
    .write (8, 0) 177, .rename (7, 0), .openPath (), .close (8, 0), .rename (8, 0), .read () 300,
    .read () 1]

def readHome (bytes : Bytes) : Except Bytes Json :=
  if bytes = homeText ++ ascii "\n" then .ok homeInfo.json else .error []

end ServerInfoFile

end HolderDaemon
