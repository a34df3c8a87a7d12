import Gateway.Lib.Libc
import Mathlib.Data.List.DropRight
import Mathlib.Logic.Function.Basic

/-!
# The configuration parser (`include/config/ConfigParser.hpp`)

A load returns, throws what a conversion of a number throws, and leaves the object as it
was when it returned or threw. The lines printed on the console are not modelled.
-/

namespace Gateway.Config

structure GatewayConfig where
  port : UInt16 := 8080
  threadPoolSize : UInt64 := 4
  rateLimitCapacity : ℤ := 100
  rateLimitRefillRate : ℤ := 50
  logLevel : Bytes := ascii "INFO"
  sharedSecret : Bytes := ascii "qualcomm_gateway_s3cr3t"
  logFile : Bytes := ascii "gateway.log"
deriving DecidableEq

/-- `std::unordered_map<std::string, std::string>` -/
abbrev KvStore := Bytes → Option Bytes

structure ConfigParser where
  filepath : Bytes := []
  kvStore : KvStore := fun _ => none
  config : GatewayConfig := {}

/-- What the paths name; `std::ifstream` opens nothing under the empty path. -/
structure Disk where
  content : Bytes → Option Bytes
  content_nil : content [] = none

/-! ## Lines -/

/-- One of `" \t\r\n"`. -/
def isBlank (c : UInt8) : Bool := c == 32 || c == 9 || c == 13 || c == 10

def trim (str : Bytes) : Bytes := (str.dropWhile isBlank).rdropWhile isBlank

/-- The lines `std::getline` returns: nothing follows a final newline. -/
def getlines (content : Bytes) : List Bytes :=
  let parts := content.splitOn 10
  if parts.getLast? = some [] then parts.dropLast else parts

/-- The assignment on a line, if it is no comment and has a key. -/
def parseLine (line : Bytes) : Option (Bytes × Bytes) :=
  let line := trim line
  if line.isEmpty || line.head? = some 35 || line.head? = some 59 then none
  else
    match line.findIdx? (· == 61) with
    | none => none
    | some equalPos =>
      let key := trim (line.take equalPos)
      let val := trim (line.drop (equalPos + 1))
      if key.isEmpty then none else some (key, val)

/-- The body of the loop of `load_from_file`. -/
def storeLine (kv : KvStore) (line : Bytes) : KvStore :=
  match parseLine line with
  | none => kv
  | some (key, val) => Function.update kv key (some val)

/-! ## Settings -/

/-- A line of `apply_kv`. -/
structure Setting where
  key : Bytes
  assign : Bytes → GatewayConfig → Except StoiError GatewayConfig

namespace Setting

/-- `if (kv_store_.count(key)) config_.field = read(kv_store_[key]);` -/
def of {α : Type} (key : Bytes) (read : Bytes → Except StoiError α)
    (set : α → GatewayConfig → GatewayConfig) : Setting :=
  ⟨key, fun v c => (read v).map fun x => set x c⟩

/-- `static_cast<uint16_t>(std::stoi(v))` -/
def readPort (v : Bytes) : Except StoiError UInt16 := (stoi v).map UInt16.ofInt

def port : Setting := of (ascii "port") readPort fun x c => { c with port := x }

def threadPoolSize : Setting :=
  of (ascii "thread_pool_size") stoul fun x c => { c with threadPoolSize := x }

def rateLimitCapacity : Setting :=
  of (ascii "rate_limit_capacity") stoll fun x c => { c with rateLimitCapacity := x }

def rateLimitRefillRate : Setting :=
  of (ascii "rate_limit_refill_rate") stoll fun x c => { c with rateLimitRefillRate := x }

def logLevel : Setting := of (ascii "log_level") .ok fun x c => { c with logLevel := x }

def sharedSecret : Setting := of (ascii "shared_secret") .ok fun x c => { c with sharedSecret := x }

def logFile : Setting := of (ascii "log_file") .ok fun x c => { c with logFile := x }

end Setting

def settings : List Setting :=
  [.port, .threadPoolSize, .rateLimitCapacity, .rateLimitRefillRate, .logLevel, .sharedSecret,
    .logFile]

/-- `apply_kv`: the settings in order, up to the first conversion that throws. -/
def applySettings (kv : KvStore) : List Setting → GatewayConfig → Option StoiError × GatewayConfig
  | [], c => (none, c)
  | s :: rest, c =>
    match kv s.key with
    | none => applySettings kv rest c
    | some v =>
      match s.assign v c with
      | .ok c => applySettings kv rest c
      | .error e => (some e, c)

namespace ConfigParser

def applyKv (p : ConfigParser) : Option StoiError × GatewayConfig :=
  applySettings p.kvStore settings p.config

def loadFromFile (p : ConfigParser) (disk : Disk) (filepath : Bytes) :
    Except StoiError Bool × ConfigParser :=
  let p := { p with filepath }
  match disk.content filepath with
  | none => (.ok false, p)
  | some content =>
    let p := { p with kvStore := (getlines content).foldl storeLine p.kvStore }
    match p.applyKv with
    | (none, config) => (.ok true, { p with config })
    | (some e, config) => (.error e, { p with config })

def reload (p : ConfigParser) (disk : Disk) : Except StoiError Bool × ConfigParser :=
  if p.filepath.isEmpty then (.ok false, p) else p.loadFromFile disk p.filepath

def validate (p : ConfigParser) : Bool :=
  if p.config.port == 0 || 65535 < p.config.port.toNat then false
  else if p.config.threadPoolSize == 0 || 128 < p.config.threadPoolSize then false
  else if p.config.rateLimitCapacity ≤ 0 || p.config.rateLimitRefillRate ≤ 0 then false
  else true

end ConfigParser

end Gateway.Config
