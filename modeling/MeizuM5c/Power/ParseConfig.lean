import MeizuM5c.Power.Config
import MeizuM5c.Power.Json

/-!
`ParseConfig` (`Config.cpp`). The text is read by jsoncpp, so its parser is a
parameter like the conversions; so is the floating-point test of the low-water
factor. A parse that ends gives a config or an error text, and only the former
reaches `*out`.
-/

namespace MeizuM5c.Power

open Lib

/-- What `ParseConfig` returns, with `*out` and `*error` after it. -/
structure ParseResult where
  returned : Bool
  out : Config
  error : Option String

section Parse

variable (acc : JsonAccess)

/-- `Fail`. -/
def fail {α : Type} (what : String) : Parse α := .error (.reject what)

def ofEntries {α : Type} (entries : List (String × α)) : OrdMap String α :=
  entries.foldl (fun m e => m.insert e.1 e.2) OrdMap.empty

def parseValueMap (v : Json) : Parse ValueMap :=
  if !v.isObject then .ok OrdMap.empty
  else do
    let keys ← v.getMemberNames
    let entries ← keys.mapM (fun key => do
      let value ← v.index key
      let text ← convert (acc.asString value)
      return (key, text))
    return ofEntries entries

/-- A `std::set` of which only membership is used. -/
def parseNames (v : Json) : Parse (List String) :=
  if !v.isArray then .ok []
  else v.elements.mapM (fun name => convert (acc.asString name))

def asStringAt (v : Json) (key : String) : Parse String := do
  let value ← v.index key
  convert (acc.asString value)

/-- `get` and then `asString`; the other conversions likewise. -/
def asStringOr (v : Json) (key : String) (default : Json) : Parse String := do
  let value ← v.get key default
  convert (acc.asString value)

def asIntOr (v : Json) (key : String) (default : Int) : Parse Int := do
  let value ← v.get key (.int default)
  convert (acc.asInt value)

def asInt64Or (v : Json) (key : String) (default : Int) : Parse Int := do
  let value ← v.get key (.int default)
  convert (acc.asInt64 value)

def asBoolOr (v : Json) (key : String) (default : Bool) : Parse Bool := do
  let value ← v.get key (.bool default)
  convert (acc.asBool value)

def parseCpufreqFloor (name : String) (v : Json) : Parse NodeConfig := do
  let policy ← asStringAt acc v "Policy"
  if policy = "" then fail ("node " ++ name ++ ": cpufreq_floor needs Policy")
  else return {
    name
    type := .cpufreqFloor
    path := policy ++ "/scaling_min_freq"
    maxPath := policy ++ "/scaling_max_freq"
    minInfoPath := policy ++ "/cpuinfo_min_freq" }

def parsePpmFloor (name : String) (v : Json) : Parse NodeConfig := do
  let cluster ← v.index "Cluster"
  if !acc.isInt cluster then fail ("node " ++ name ++ ": ppm_floor needs Cluster")
  else do
    let path ← asStringOr acc v "Path" (.string "/proc/ppm/policy/userlimit_min_cpu_freq")
    let maxPath ← asStringAt acc v "MaxPath"
    let cluster ← convert (acc.asInt cluster)
    return { name, type := .ppmFloor, path, maxPath, cluster }

def parseAggregate (name aggregate : String) : Parse Aggregate :=
  if aggregate = "max_int" then .ok .maxInt
  else if aggregate = "max_fields" then .ok .maxFields
  else fail ("node " ++ name ++ ": unknown Aggregate " ++ aggregate)

def parseValue (name : String) (v : Json) : Parse NodeConfig := do
  let path ← asStringAt acc v "Path"
  let defaultValue ← asStringAt acc v "Default"
  let text ← asStringOr acc v "Aggregate" (.string "max_int")
  let aggregate ← parseAggregate name text
  return { name, type := .value, path, defaultValue, aggregate }

def parsePulse (name : String) (v : Json) : Parse NodeConfig := do
  let path ← asStringAt acc v "Path"
  let durationPath ← asStringAt acc v "DurationPath"
  return { name, type := .pulse, path, durationPath }

/-- The part of `ParseNode` that depends on the type. -/
def parseNodeOf (name type : String) (v : Json) : Parse NodeConfig :=
  if type = "cpufreq_floor" then parseCpufreqFloor acc name v
  else if type = "ppm_floor" then parsePpmFloor acc name v
  else if type = "value" then parseValue acc name v
  else if type = "pulse" then parsePulse acc name v
  else fail ("node " ++ name ++ ": unknown Type '" ++ type ++ "'")

def parseRelease (name release : String) : Parse Release :=
  if release = "default" then .ok .default
  else if release = "none" then .ok .none
  else if release = "capture" then .ok .capture
  else fail ("node " ++ name ++ ": unknown Release " ++ release)

/-- The part that all types share. -/
def parseNodeRest (name : String) (v : Json) (node : NodeConfig) : Parse NodeConfig :=
  if node.path = "" then fail ("node " ++ name ++ ": no path")
  else do
    let order ← asIntOr acc v "Order" 0
    let text ← asStringOr acc v "Release" (.string "default")
    let release ← parseRelease name text
    if release ≠ .default ∧ node.type ≠ .value then
      fail ("node " ++ name ++ ": Release none/capture is for value nodes")
    else return { node with order, release }

def parseNode (name : String) (v : Json) : Parse NodeConfig := do
  let type ← asStringAt acc v "Type"
  let node ← parseNodeOf acc name type v
  parseNodeRest acc name v node

/-- Every name in `set` must be a non-pulse node. -/
def checkSet (types : OrdMap String NodeType) (set : ValueMap) (place : String) :
    Parse (List Unit) :=
  set.entries.mapM (fun e =>
    match types.find? e.1 with
    | none => fail (place ++ ": unknown node " ++ e.1)
    | some .pulse => fail (place ++ ": pulse node " ++ e.1 ++ " in Set")
    | some _ => .ok ())

def parsePulseName (types : OrdMap String NodeType) (source : String) (p : Json) :
    Parse String := do
  let name ← convert (acc.asString p)
  if types.find? name = some .pulse then return name
  else fail (source ++ ": " ++ name ++ " is not a pulse node")

def parseRequest (types : OrdMap String NodeType) (source : String) (r : Json) :
    Parse RequestConfig := do
  let holdMs ← asIntOr acc r "HoldMs" 0
  let pulseMs ← asIntOr acc r "PulseMs" 0
  let pulseMaxMs ← asIntOr acc r "PulseMaxMs" 1000
  let flingMinMs ← asIntOr acc r "FlingMinMs" 0
  let maxMs ← asIntOr acc r "MaxMs" 0
  let ignoreZeroDuration ← asBoolOr acc r "IgnoreZeroDuration" false
  let names ← r.index "Pulse"
  let pulse ← names.elements.mapM (parsePulseName acc types source)
  let values ← r.index "Set"
  let set ← parseValueMap acc values
  let _ ← checkSet types set source
  if source = "launch" ∧ maxMs ≤ 0 then fail "launch needs MaxMs > 0"
  else return {
    holdMs, pulseMs, pulseMaxMs, flingMinMs, maxMs, ignoreZeroDuration, pulse, set }

def parseSource (types : OrdMap String NodeType) (requests : Json) (source : String) :
    Parse (String × RequestConfig) :=
  if source ≠ "interaction" ∧ source ≠ "fling" ∧ source ≠ "launch" then
    fail ("unknown request " ++ source)
  else do
    let r ← requests.index source
    let rc ← parseRequest acc types source r
    return (source, rc)

def parseLevel (types : OrdMap String NodeType) (level : Json) : Parse ValueMap := do
  let set ← parseValueMap acc level
  let _ ← checkSet types set "Adpf level"
  return set

variable (lowWaterTest : Rat → Int → Int → Bool)

/-- The factor is 0.8 unless the document says otherwise. -/
def defaultAdpf : AdpfConfig where
  lowWater := lowWaterTest (4 / 5)

def parseAdpf (types : OrdMap String NodeType) (adpf : Json) : Parse AdpfConfig :=
  if !adpf.isObject then .ok (defaultAdpf lowWaterTest)
  else do
    let enabled ← asBoolOr acc adpf "Enabled" false
    let reportRateMs ← asInt64Or acc adpf "ReportRateMs" 100
    let staleMs ← asInt64Or acc adpf "StaleMs" 150
    let factor ← adpf.get "LowWater" (.real (4 / 5))
    let lowWater ← convert (acc.asDouble factor)
    let list ← adpf.index "Levels"
    let levels ← list.elements.mapM (parseLevel acc types)
    if enabled = true ∧ levels = [] then fail "Adpf enabled without Levels"
    else return { enabled, reportRateMs, staleMs, lowWater := lowWaterTest lowWater, levels }

def typesOf (nodes : List NodeConfig) : OrdMap String NodeType :=
  ofEntries (nodes.map (fun node => (node.name, node.type)))

def parseNodes (nodes : Json) : Parse (List NodeConfig) := do
  let names ← nodes.getMemberNames
  names.mapM (fun name => do
    let v ← nodes.index name
    parseNode acc name v)

def parseRequests (types : OrdMap String NodeType) (requests : Json) :
    Parse (OrdMap String RequestConfig) := do
  let sources ← requests.getMemberNames
  let entries ← sources.mapM (parseSource acc types requests)
  return ofEntries entries

def parseSupported (root : Json) (key : String) : Parse (List String) := do
  let supported ← root.index "Supported"
  let names ← supported.index key
  parseNames acc names

/-- The part of `ParseConfig` after the text has been read. -/
def parseRoot (root : Json) : Parse Config :=
  if !root.isObject then fail "json: root is not an object"
  else do
    let nodesValue ← root.index "Nodes"
    let nodes ← parseNodes acc nodesValue
    let requestsValue ← root.index "Requests"
    let requests ← parseRequests acc (typesOf nodes) requestsValue
    let adpfValue ← root.index "Adpf"
    let adpf ← parseAdpf acc lowWaterTest (typesOf nodes) adpfValue
    let boosts ← parseSupported acc root "Boosts"
    let modes ← parseSupported acc root "Modes"
    return { nodes, requests, adpf, boosts, modes }

/-- `none` when a call of an accessor fails on the way. -/
def parseConfig (parse : String → Except String Json) (json : String) (out : Config) :
    Option ParseResult :=
  match parse json with
  | .error errs => some ⟨false, out, some ("json: " ++ errs)⟩
  | .ok root =>
      match parseRoot acc lowWaterTest root with
      | .ok config => some ⟨true, config, none⟩
      | .error (.reject error) => some ⟨false, out, some error⟩
      | .error .abort => none

end Parse

section Accepted

/-- What the engine, ADPF and the pulses rely on. -/
structure WellFormed (acc : JsonAccess) (root : Json) (cfg : Config) : Prop where
  names : (cfg.nodes.map NodeConfig.name).Nodup
  paths : ∀ node ∈ cfg.nodes, node.path ≠ ""
  clusters : ∀ node ∈ cfg.nodes, node.type = .ppmFloor →
    acc.isInt (((root.member "Nodes").member node.name).member "Cluster") = true ∧
      acc.asInt (((root.member "Nodes").member node.name).member "Cluster") = some node.cluster
  releases : ∀ node ∈ cfg.nodes, node.release ≠ .default → node.type = .value
  sets : ∀ source rc, cfg.requests.find? source = some rc →
    ∀ name value, rc.set.find? name = some value →
      ∃ node ∈ cfg.nodes, node.name = name ∧ node.type ≠ .pulse
  levels : ∀ set ∈ cfg.adpf.levels, ∀ name value, set.find? name = some value →
    ∃ node ∈ cfg.nodes, node.name = name ∧ node.type ≠ .pulse
  pulses : ∀ source rc, cfg.requests.find? source = some rc → ∀ name ∈ rc.pulse,
    ∃ node ∈ cfg.nodes, node.name = name ∧ node.type = .pulse
  sources : ∀ source rc, cfg.requests.find? source = some rc →
    source ∈ ["interaction", "fling", "launch"]
  launch : ∀ rc, cfg.requests.find? "launch" = some rc → 0 < rc.maxMs
  adpf : cfg.adpf.enabled = true → cfg.adpf.levels ≠ []

variable {acc : JsonAccess}

theorem find?_ofEntries {α : Type} {entries : List (String × α)} {key : String} {value : α}
    (h : (ofEntries entries).find? key = some value) : (key, value) ∈ entries := by
  unfold ofEntries at h
  induction entries using List.reverseRecOn with
  | nil => cases h
  | append_singleton entries e ih =>
      rw [List.foldl_append, List.foldl_cons, List.foldl_nil] at h
      rw [List.mem_append, List.mem_singleton]
      by_cases heq : key = e.1
      · rw [heq, OrdMap.find?_insert_self] at h
        cases h
        exact Or.inr (by rw [heq])
      · rw [OrdMap.find?_insert_of_ne _ _ heq] at h
        exact Or.inl (ih h)

theorem fail_ne_ok {α : Type} {what : String} {a : α} : (fail what : Parse α) ≠ .ok a := nofun

theorem parseNodeOf_ok {name type : String} {v : Json} {node : NodeConfig}
    (h : parseNodeOf acc name type v = .ok node) :
    node.name = name ∧ (node.type = .ppmFloor →
      acc.isInt (v.member "Cluster") = true ∧
        acc.asInt (v.member "Cluster") = some node.cluster) := by
  unfold parseNodeOf at h
  split_ifs at h
  · unfold parseCpufreqFloor at h
    obtain ⟨policy, -, h⟩ := bind_eq_ok_iff.mp h
    split_ifs at h
    · exact absurd h fail_ne_ok
    · cases h
      exact ⟨rfl, nofun⟩
  · unfold parsePpmFloor at h
    obtain ⟨cluster, hcluster, h⟩ := bind_eq_ok_iff.mp h
    obtain ⟨-, rfl⟩ := Json.index_eq_ok_iff.mp hcluster
    split_ifs at h with hint
    · exact absurd h fail_ne_ok
    · obtain ⟨path, -, h⟩ := bind_eq_ok_iff.mp h
      obtain ⟨maxPath, -, h⟩ := bind_eq_ok_iff.mp h
      obtain ⟨n, hn, h⟩ := bind_eq_ok_iff.mp h
      cases h
      exact ⟨rfl, fun _ => ⟨by simpa using hint, convert_eq_ok_iff.mp hn⟩⟩
  · unfold parseValue at h
    obtain ⟨path, -, h⟩ := bind_eq_ok_iff.mp h
    obtain ⟨defaultValue, -, h⟩ := bind_eq_ok_iff.mp h
    obtain ⟨text, -, h⟩ := bind_eq_ok_iff.mp h
    obtain ⟨aggregate, -, h⟩ := bind_eq_ok_iff.mp h
    cases h
    exact ⟨rfl, nofun⟩
  · unfold parsePulse at h
    obtain ⟨path, -, h⟩ := bind_eq_ok_iff.mp h
    obtain ⟨durationPath, -, h⟩ := bind_eq_ok_iff.mp h
    cases h
    exact ⟨rfl, nofun⟩
  · exact absurd h fail_ne_ok

/-- An accepted node. -/
structure NodeAccepted (acc : JsonAccess) (name : String) (v : Json) (node : NodeConfig) :
    Prop where
  name : node.name = name
  path : node.path ≠ ""
  cluster : node.type = .ppmFloor → acc.isInt (v.member "Cluster") = true ∧
    acc.asInt (v.member "Cluster") = some node.cluster
  release : node.release ≠ .default → node.type = .value

theorem parseNode_ok {name : String} {v : Json} {node : NodeConfig}
    (h : parseNode acc name v = .ok node) : NodeAccepted acc name v node := by
  unfold parseNode at h
  obtain ⟨type, -, h⟩ := bind_eq_ok_iff.mp h
  obtain ⟨base, hbase, h⟩ := bind_eq_ok_iff.mp h
  obtain ⟨hname, hcluster⟩ := parseNodeOf_ok hbase
  unfold parseNodeRest at h
  split_ifs at h with hpath
  · exact absurd h fail_ne_ok
  · obtain ⟨order, -, h⟩ := bind_eq_ok_iff.mp h
    obtain ⟨text, -, h⟩ := bind_eq_ok_iff.mp h
    obtain ⟨release, -, h⟩ := bind_eq_ok_iff.mp h
    split_ifs at h with hrelease
    · exact absurd h fail_ne_ok
    · cases h
      refine ⟨hname, hpath, hcluster, ?_⟩
      intro hne
      by_contra htype
      exact hrelease ⟨hne, htype⟩

theorem nodesAccepted_of_forall₂ {v : Json} {names : List String} {nodes : List NodeConfig}
    (h : List.Forall₂ (fun name node => NodeAccepted acc name (v.member name) node)
      names nodes) :
    nodes.map NodeConfig.name = names ∧
      ∀ node ∈ nodes, NodeAccepted acc node.name (v.member node.name) node := by
  induction h with
  | nil => exact ⟨rfl, nofun⟩
  | cons hnode _ ih =>
      obtain ⟨hmap, hrest⟩ := ih
      rw [List.map_cons, hmap, hnode.name, List.forall_mem_cons, hnode.name]
      exact ⟨rfl, hnode, hrest⟩

theorem parseNodes_ok {v : Json} {nodes : List NodeConfig} (h : parseNodes acc v = .ok nodes) :
    nodes.map NodeConfig.name = v.memberNames ∧
      ∀ node ∈ nodes, NodeAccepted acc node.name (v.member node.name) node := by
  unfold parseNodes at h
  obtain ⟨names, hnames, hall⟩ := bind_eq_ok_iff.mp h
  obtain ⟨-, rfl⟩ := Json.getMemberNames_eq_ok_iff.mp hnames
  apply nodesAccepted_of_forall₂
  refine (mapM_eq_ok_iff.mp hall).imp ?_
  intro name node hnode
  obtain ⟨value, hvalue, hparsed⟩ := bind_eq_ok_iff.mp hnode
  obtain ⟨-, rfl⟩ := Json.index_eq_ok_iff.mp hvalue
  exact parseNode_ok hparsed

theorem checkSet_ok {types : OrdMap String NodeType} {set : ValueMap} {place : String}
    {done : List Unit} (h : checkSet types set place = .ok done) {name value : String}
    (hname : set.find? name = some value) : ∃ t, types.find? name = some t ∧ t ≠ .pulse := by
  rw [OrdMap.find?_eq_some_iff] at hname
  obtain ⟨answer, -, hcheck⟩ := exists_of_mem_mapM h hname
  simp only at hcheck
  split at hcheck
  · exact absurd hcheck fail_ne_ok
  · exact absurd hcheck fail_ne_ok
  · rename_i t hnot hfind
    exact ⟨t, hfind, fun heq => hnot heq⟩

theorem typesOf_find? {nodes : List NodeConfig} {name : String} {t : NodeType}
    (h : (typesOf nodes).find? name = some t) :
    ∃ node ∈ nodes, node.name = name ∧ node.type = t := by
  obtain ⟨node, hnode, heq⟩ := List.mem_map.mp (find?_ofEntries h)
  cases heq
  exact ⟨node, hnode, rfl, rfl⟩

/-- A set that passes the check names nodes that are no pulse nodes. -/
theorem checkSet_names {nodes : List NodeConfig} {set : ValueMap} {place : String}
    {done : List Unit} (h : checkSet (typesOf nodes) set place = .ok done) {name value : String}
    (hname : set.find? name = some value) :
    ∃ node ∈ nodes, node.name = name ∧ node.type ≠ .pulse := by
  obtain ⟨t, ht, hne⟩ := checkSet_ok h hname
  obtain ⟨node, hnode, hnodeName, rfl⟩ := typesOf_find? ht
  exact ⟨node, hnode, hnodeName, hne⟩

/-- An accepted request. -/
structure RequestAccepted (nodes : List NodeConfig) (source : String) (rc : RequestConfig) :
    Prop where
  known : source ∈ ["interaction", "fling", "launch"]
  pulse : ∀ name ∈ rc.pulse, ∃ node ∈ nodes, node.name = name ∧ node.type = .pulse
  set : ∀ name value, rc.set.find? name = some value →
    ∃ node ∈ nodes, node.name = name ∧ node.type ≠ .pulse
  launch : source = "launch" → 0 < rc.maxMs

theorem parsePulseName_ok {types : OrdMap String NodeType} {source name : String} {p : Json}
    (h : parsePulseName acc types source p = .ok name) : types.find? name = some .pulse := by
  unfold parsePulseName at h
  obtain ⟨text, -, h⟩ := bind_eq_ok_iff.mp h
  split_ifs at h with hpulse
  · cases h
    exact hpulse
  · exact absurd h fail_ne_ok

theorem parseSource_ok {nodes : List NodeConfig} {requests : Json} {key source : String}
    {rc : RequestConfig} (h : parseSource acc (typesOf nodes) requests key = .ok (source, rc)) :
    RequestAccepted nodes source rc := by
  unfold parseSource at h
  split_ifs at h with hunknown
  · exact absurd h fail_ne_ok
  · obtain ⟨r, -, h⟩ := bind_eq_ok_iff.mp h
    obtain ⟨parsed, hparsed, h⟩ := bind_eq_ok_iff.mp h
    cases h
    unfold parseRequest at hparsed
    obtain ⟨holdMs, -, h⟩ := bind_eq_ok_iff.mp hparsed
    obtain ⟨pulseMs, -, h⟩ := bind_eq_ok_iff.mp h
    obtain ⟨pulseMaxMs, -, h⟩ := bind_eq_ok_iff.mp h
    obtain ⟨flingMinMs, -, h⟩ := bind_eq_ok_iff.mp h
    obtain ⟨maxMs, -, h⟩ := bind_eq_ok_iff.mp h
    obtain ⟨ignoreZeroDuration, -, h⟩ := bind_eq_ok_iff.mp h
    obtain ⟨names, -, h⟩ := bind_eq_ok_iff.mp h
    obtain ⟨pulse, hpulse, h⟩ := bind_eq_ok_iff.mp h
    obtain ⟨values, -, h⟩ := bind_eq_ok_iff.mp h
    obtain ⟨set, -, h⟩ := bind_eq_ok_iff.mp h
    obtain ⟨done, hset, h⟩ := bind_eq_ok_iff.mp h
    split_ifs at h with hlaunch
    · exact absurd h fail_ne_ok
    · cases h
      constructor
      · by_contra hmem
        simp only [List.mem_cons, List.not_mem_nil, or_false, not_or] at hmem
        exact hunknown hmem
      · intro name hname
        obtain ⟨p, -, hp⟩ := exists_of_mem_result hpulse hname
        exact typesOf_find? (parsePulseName_ok hp)
      · exact fun name value hname => checkSet_names hset hname
      · intro heq
        by_contra hmax
        exact hlaunch ⟨heq, not_lt.mp hmax⟩

theorem parseRequests_ok {nodes : List NodeConfig} {v : Json}
    {requests : OrdMap String RequestConfig}
    (h : parseRequests acc (typesOf nodes) v = .ok requests) {source : String}
    {rc : RequestConfig} (hrc : requests.find? source = some rc) :
    RequestAccepted nodes source rc := by
  unfold parseRequests at h
  obtain ⟨sources, -, h⟩ := bind_eq_ok_iff.mp h
  obtain ⟨entries, hentries, h⟩ := bind_eq_ok_iff.mp h
  cases h
  obtain ⟨key, -, hkey⟩ := exists_of_mem_result hentries (find?_ofEntries hrc)
  exact parseSource_ok hkey

theorem parseAdpf_ok {lowWaterTest : Rat → Int → Int → Bool} {nodes : List NodeConfig}
    {v : Json} {adpf : AdpfConfig}
    (h : parseAdpf acc lowWaterTest (typesOf nodes) v = .ok adpf) :
    (adpf.enabled = true → adpf.levels ≠ []) ∧
      ∀ set ∈ adpf.levels, ∀ name value, set.find? name = some value →
        ∃ node ∈ nodes, node.name = name ∧ node.type ≠ .pulse := by
  unfold parseAdpf at h
  split_ifs at h
  · cases h
    exact ⟨nofun, nofun⟩
  · obtain ⟨enabled, -, h⟩ := bind_eq_ok_iff.mp h
    obtain ⟨reportRateMs, -, h⟩ := bind_eq_ok_iff.mp h
    obtain ⟨staleMs, -, h⟩ := bind_eq_ok_iff.mp h
    obtain ⟨factor, -, h⟩ := bind_eq_ok_iff.mp h
    obtain ⟨lowWater, -, h⟩ := bind_eq_ok_iff.mp h
    obtain ⟨list, -, h⟩ := bind_eq_ok_iff.mp h
    obtain ⟨levels, hlevels, h⟩ := bind_eq_ok_iff.mp h
    split_ifs at h with hempty
    · exact absurd h fail_ne_ok
    · cases h
      refine ⟨fun henabled hnil => hempty ⟨henabled, hnil⟩, ?_⟩
      intro set hset name value hname
      obtain ⟨level, -, hlevel⟩ := exists_of_mem_result hlevels hset
      unfold parseLevel at hlevel
      obtain ⟨parsed, -, hlevel⟩ := bind_eq_ok_iff.mp hlevel
      obtain ⟨done, hdone, hlevel⟩ := bind_eq_ok_iff.mp hlevel
      cases hlevel
      exact checkSet_names hdone hname

/-- Every document that is accepted gives a well-formed config. -/
theorem parseRoot_ok {lowWaterTest : Rat → Int → Int → Bool} {root : Json} {cfg : Config}
    (h : parseRoot acc lowWaterTest root = .ok cfg) : WellFormed acc root cfg := by
  unfold parseRoot at h
  split_ifs at h
  · exact absurd h fail_ne_ok
  · obtain ⟨nodesValue, hnodesValue, h⟩ := bind_eq_ok_iff.mp h
    obtain ⟨-, rfl⟩ := Json.index_eq_ok_iff.mp hnodesValue
    obtain ⟨nodes, hnodes, h⟩ := bind_eq_ok_iff.mp h
    obtain ⟨requestsValue, -, h⟩ := bind_eq_ok_iff.mp h
    obtain ⟨requests, hrequests, h⟩ := bind_eq_ok_iff.mp h
    obtain ⟨adpfValue, -, h⟩ := bind_eq_ok_iff.mp h
    obtain ⟨adpf, hadpf, h⟩ := bind_eq_ok_iff.mp h
    obtain ⟨boosts, -, h⟩ := bind_eq_ok_iff.mp h
    obtain ⟨modes, -, h⟩ := bind_eq_ok_iff.mp h
    cases h
    obtain ⟨hnames, haccepted⟩ := parseNodes_ok hnodes
    obtain ⟨henabled, hlevels⟩ := parseAdpf_ok hadpf
    have hrequest (source : String) (rc : RequestConfig)
        (hrc : requests.find? source = some rc) := parseRequests_ok hrequests hrc
    constructor
    · rw [hnames]
      exact Json.memberNames_nodup _
    · exact fun node hnode => (haccepted node hnode).path
    · exact fun node hnode => (haccepted node hnode).cluster
    · exact fun node hnode => (haccepted node hnode).release
    · exact fun source rc hrc => (hrequest source rc hrc).set
    · exact hlevels
    · exact fun source rc hrc => (hrequest source rc hrc).pulse
    · exact fun source rc hrc => (hrequest source rc hrc).known
    · exact fun rc hrc => (hrequest "launch" rc hrc).launch rfl
    · exact henabled

/-- Whatever jsoncpp makes of the text: a config that is returned is well
formed, and without one `*out` is what it was. -/
theorem parseConfig_wellFormed_or_unchanged (acc : JsonAccess)
    (lowWaterTest : Rat → Int → Int → Bool) (parse : String → Except String Json)
    (json : String) (out : Config) :
    ∀ result, parseConfig acc lowWaterTest parse json out = some result →
      (result.returned = true →
        ∃ root, parse json = .ok root ∧ WellFormed acc root result.out) ∧
      (result.returned = false → result.out = out) := by
  intro result hresult
  unfold parseConfig at hresult
  cases hparse : parse json with
  | error errs =>
      simp only [hparse, Option.some.injEq] at hresult
      rw [← hresult]
      exact ⟨nofun, fun _ => rfl⟩
  | ok root =>
      simp only [hparse] at hresult
      cases hroot : parseRoot acc lowWaterTest root with
      | ok cfg =>
          simp only [hroot, Option.some.injEq] at hresult
          rw [← hresult]
          exact ⟨fun _ => ⟨root, rfl, parseRoot_ok hroot⟩, nofun⟩
      | error stop =>
          cases stop with
          | abort => simp [hroot] at hresult
          | reject error =>
              simp only [hroot, Option.some.injEq] at hresult
              rw [← hresult]
              exact ⟨nofun, fun _ => rfl⟩

end Accepted

/-- The conversions as the documentation describes them. How a number with a
fraction is printed is left open; no document here asks for it. -/
def plainAccess : JsonAccess where
  asString := fun
    | .null => some ""
    | .bool b => some (if b then "true" else "false")
    | .int n => some (toString n)
    | .real x => some (toString x)
    | .string s => some s
    | _ => none
  asInt := asInteger (-2147483648) 2147483647
  asInt64 := asInteger (-9223372036854775808) 9223372036854775807
  asBool := fun
    | .null => some false
    | .bool b => some b
    | .int n => some (n != 0)
    | .real x => some (x != 0)
    | _ => none
  asDouble := fun
    | .null => some 0
    | .bool b => some (if b then 1 else 0)
    | .int n => some n
    | .real x => some x
    | _ => none
  isInt := fun
    | .int n => decide (-2147483648 ≤ n ∧ n ≤ 2147483647)
    | .real x => decide (x.den = 1 ∧ -2147483648 ≤ x.num ∧ x.num ≤ 2147483647)
    | _ => false
where
  asInteger (lo hi : Int) : Json → Option Int
    | .null => some 0
    | .bool b => some (if b then 1 else 0)
    | .int n => if lo ≤ n ∧ n ≤ hi then some n else none
    | .real x => if (lo : Rat) ≤ x ∧ x ≤ hi then some (x.num.tdiv x.den) else none
    | _ => none

/-- The interaction of the shipped configuration, with its two nodes. -/
def interactionDocument : Json := .object [
  ("Nodes", .object [
    ("ia_pulse", .object [("Type", .string "pulse"),
      ("Path", .string "/sys/devices/system/cpu/cpufreq/interactive/boostpulse")]),
    ("hps", .object [("Type", .string "value"),
      ("Path", .string "/proc/hps/num_base_perf_serv"), ("Default", .string "1")])]),
  ("Requests", .object [("interaction", .object [("HoldMs", .int 1000), ("PulseMs", .int 80),
    ("Pulse", .array [.string "ia_pulse"]), ("Set", .object [("hps", .string "4")])])]),
  ("Supported", .object [("Boosts", .array [.string "INTERACTION"])])]

theorem parseConfig_wellFormed_interaction :
    ∃ result, parseConfig plainAccess (fun _ _ _ => false) (fun _ => .ok interactionDocument)
        "" { adpf := defaultAdpf (fun _ _ _ => false) } = some result ∧
      result.out.nodes.map NodeConfig.name = ["hps", "ia_pulse"] ∧
      WellFormed plainAccess interactionDocument result.out := by
  refine ⟨_, rfl, by decide, ?_⟩
  obtain ⟨root, hroot, hformed⟩ := (parseConfig_wellFormed_or_unchanged plainAccess
    (fun _ _ _ => false) (fun _ => .ok interactionDocument) ""
    { adpf := defaultAdpf (fun _ _ _ => false) } _ rfl).1 rfl
  cases hroot
  exact hformed

end MeizuM5c.Power
