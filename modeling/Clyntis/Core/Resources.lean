import Clyntis.Config.IpSet
import Clyntis.Config.Settings
import Clyntis.Core.Adblock
import Clyntis.Lib.Scripted

/-!
# Routing data (`resources.rs`)

Rule providers, GEOIP and GEOSITE files and ad-block lists are loaded into a snapshot.
Files that are missing or too old are downloaded under temporary names, and take the place
of the real ones when the whole snapshot has been built.

- `Resources`: the snapshot; `bind` and `rules` put its data into conditions;
- `references`: what rules and DNS policy refer to;
- `Staged` operations, `asset`, `load`: programs on the disk. Every operation may fail;
- `Contained`: the real files are as they were, and every new temporary file is staged.

The parsers of file contents, the time and the network are given from outside.
-/

namespace Clyntis.Core

open Lib Net Config List Function Option

/-- `Stamp`. -/
structure Stamp where
  len : Nat
  digest : Bytes
  deriving DecidableEq, Repr

/-- `ProviderSource`. -/
structure ProviderSource where
  behavior : Text
  format : Text
  stamp : Stamp
  deriving DecidableEq, Repr

/-- `ListSource`. -/
structure ListSource where
  list : AdblockList
  stamp : Option Stamp
  deriving DecidableEq, Repr

/-- `Resources`. The filter stands behind a pointer `φ`. -/
structure Resources (φ : Type) where
  matchers : Table Reference Matcher := ∅
  adblock : Option φ := none
  providers : Table Text (ProviderSource × Matcher) := ∅
  adblockSources : List ListSource := []

/-- Why loading or binding fails. -/
inductive ResourceError where
  | rule (e : RuleError)
  | notLoaded
  | sizeLimit
  | missing
  | pathRequired
  | tooManyRules
  | nestedRuleSet
  | behavior
  | payload
  | geoip
  | mmdb
  | geosite
  | createDir
  | create
  | truncate
  | download
  | sync
  | read
  | rename
  deriving DecidableEq, Repr

/-- The libraries file contents are read with. -/
structure DataLib extends RuleLib where
  hash : Text → Hash
  parsePayload : Bytes → Text → Option (List Text)
  geoip : Bytes → Text → Option Matcher
  mmdb : Bytes → Option (Text → IpAddr → Bool)
  geosite : Bytes → Text → Option Matcher
  parseList : Bytes → Text → DomainSetBuilder × DomainSetBuilder × List IpNet →
    DomainSetBuilder × DomainSetBuilder × List IpNet
  digest : Bytes → Bytes
  endpoints : Endpoints

/-! ## Binding -/

namespace Resources

variable {φ : Type}

/-- `bind`. -/
def bind (r : Resources φ) (m : Matcher) : Except ResourceError Matcher :=
  m.bind fun reference =>
    match r.matchers.lookup reference with
    | some data => .ok data
    | none => .error .notLoaded

/-- One rule of `rules`. -/
def rule (lib : RuleLib) (r : Resources φ) (raw : Text) : Except ResourceError Rule := do
  let rule ← (Rule.parse lib raw).mapError .rule
  let matcher ← r.bind rule.matcher
  return { rule with matcher }

/-- `rules`. -/
def rules (lib : RuleLib) (r : Resources φ) (raw : List Text) :
    Except ResourceError (List Rule) :=
  raw.mapM (r.rule lib)

/-- `reuse`: the data of all these tags, if it is all there. -/
def reuse (r : Resources φ) (kind : DataKind) (tags : List Text) :
    Option (List (Reference × Matcher)) :=
  tags.mapM fun tag => (r.matchers.lookup (kind, tag)).map fun m => ((kind, tag), m)

end Resources

/-- The tags of a policy key with this prefix. -/
def keyTags (start : String) (key : Text) : List Text :=
  match key.stripStart start.toList with
  | some tags => tags.splitOn ','
  | none => []

/-- The references of a policy key. -/
def keyReferences (key : Text) : List Reference :=
  (keyTags "geosite:" key).map (fun tag => (.geosite, tag.toAsciiLowercase)) ++
    (keyTags "rule-set:" key).map fun tag => (.ruleSet, tag)

/-- `references`. -/
def references (lib : RuleLib) (config : Config) : Except ResourceError (List Reference) := do
  let rules ← config.rules.mapM fun raw => (Rule.parse lib raw).mapError ResourceError.rule
  return rules.flatMap (fun rule => rule.matcher.references) ++
    (config.dns.nameserverPolicy.keys ++ config.dns.fakeIpFilter).flatMap keyReferences

/-! ## Rule providers -/

/-- What `provider_matcher` collects. -/
structure Collected where
  domains : DomainSetBuilder := {}
  nets : List IpNet := []
  nodes : List Matcher := []

/-- The loop body of `provider_matcher`. -/
def Collected.add (lib : RuleLib) (behavior : Text) (c : Collected) (value : Text) :
    Except ResourceError Collected :=
  if behavior = "domain".toList then do
    let domains ← (c.domains.pattern lib value).mapError .rule
    return { c with domains }
  else if behavior = "ipcidr".toList then
    match lib.parseNet value with
    | some net => .ok { c with nets := c.nets ++ [net] }
    | none => .error (.rule .address)
  else if behavior = "classical".toList then do
    let m ← (Matcher.parseCondition lib value).mapError .rule
    if m.references.any fun reference => reference.1 == .ruleSet then .error .nestedRuleSet
    else
      match m with
      | .net net => .ok { c with nets := c.nets ++ [net] }
      | m =>
        let (domains, left) := c.domains.absorb m
        .ok { c with domains, nodes := c.nodes ++ left.toList }
  else .error .behavior

/-- `provider_matcher`. -/
def providerMatcher (lib : DataLib) (p : RuleProvider) (payload : List Text) :
    Except ResourceError Matcher :=
  if payload.length ≤ 2000000 then do
    let c ← payload.foldlM (Collected.add lib.toRuleLib p.behavior) {}
    let set := c.domains.build lib.hash lib.regex
    let nodes := if set.isEmpty then c.nodes else .domains set :: c.nodes
    let nodes := if c.nets.isEmpty then nodes else .nets (.new c.nets false) :: nodes
    return .or nodes
  else .error .tooManyRules

/-! ## The disk -/

/-- A resource's own path, or a temporary one beside it. -/
inductive Path where
  | real (name : Text)
  | temp (name : Text) (id : Nat)
  deriving DecidableEq, Repr

structure File where
  data : Bytes
  modified : Nat
  deriving DecidableEq, Repr

/-- What loading works on: the files, the next unused temporary name, and the load's
`Staged` files. -/
structure Disk where
  files : Path → Option File
  nextId : Nat
  staged : List (Path × Path) := []

/-- How an operation goes. The bytes are those that a download received. -/
inductive Event where
  | done (data : Bytes)
  | failed (data : Bytes)
  deriving DecidableEq, Repr

instance : Inhabited Event := ⟨.done []⟩

/-- A part of a load. -/
abbrev Loading (α : Type) : Type := Scripted Event Disk ResourceError α

/-- `LIMIT`. -/
def sizeLimit : Nat := 128 * 1024 * 1024

namespace Disk

/-- Replaces a file's contents. -/
def write (path : Path) (data : Bytes) (now : Nat) (disk : Disk) : Disk :=
  { disk with files := update disk.files path (some ⟨data, now⟩) }

/-- Notes a new temporary file for a path. -/
def stage (path : Text) (disk : Disk) : Disk :=
  { disk with
    nextId := disk.nextId + 1
    staged := disk.staged ++ [(.temp path disk.nextId, .real path)] }

/-- `discard`. -/
def discard (temp : Path) (disk : Disk) : Disk :=
  { disk with
    files := update disk.files temp none
    staged := disk.staged.filter fun entry => entry.1 != temp }

/-- Moves a file over another. -/
def move (source target : Path) (disk : Disk) : Disk :=
  { disk with
    files := update (update disk.files target (disk.files source)) source none }

/-- `drop`: removes the temporary files that are still staged. -/
def dropStaged (disk : Disk) : Disk :=
  { disk with
    files := fun path => if disk.staged.any fun entry => entry.1 == path then none
      else disk.files path
    staged := [] }

end Disk

section Loading

open Scripted

variable (lib : DataLib) (now : Nat)

/-- An operation without an effect of its own. -/
def perform (e : ResourceError) : Loading Unit := do
  match ← ask with
  | .done _ => pure ()
  | .failed _ => throw e

/-- `std::fs::metadata(path).ok()`. -/
def stat (path : Path) : Loading (Option File) := do
  match ← ask with
  | .done _ => do
    let disk ← get
    return disk.files path
  | .failed _ => return none

/-- `std::fs::read(path)`. -/
def readFile (path : Path) : Loading Bytes := do
  perform .read
  let disk ← get
  match disk.files path with
  | some file => return file.data
  | none => throw .read

/-- `read_limited`. -/
def readLimited (path : Path) : Loading Bytes := do
  let data ← readFile path
  if data.length ≤ sizeLimit then return data else throw .sizeLimit

/-- `Stamp::of`. -/
def stampOf (path : Path) : Loading Stamp := do
  let data ← readFile path
  return ⟨data.length, lib.digest data⟩

/-- `create`. -/
def create (path : Text) : Loading Path := do
  perform .createDir
  let disk ← get
  modify (Disk.stage path)
  perform .create
  modify (Disk.write (.temp path disk.nextId) [] now)
  return .temp path disk.nextId

/-- `download`, into a file that is empty; a failed one may have written a part. -/
def download (temp : Path) : Loading Unit := do
  match ← ask with
  | .done data => modify (Disk.write temp data now)
  | .failed data => do
    modify (Disk.write temp data now)
    throw .download

/-- `set_len(0)`. -/
def truncate (temp : Path) : Loading Unit := do
  perform .truncate
  modify (Disk.write temp [] now)

/-- Downloads directly, then through the proxy if there is one; `sync_all` at the end. An
error of `set_len` is not an error of the download. -/
def fetch (proxy : Bool) (temp : Path) : Loading (Except ResourceError Unit) := do
  let direct ← attempt (download now temp)
  let result ← (match direct, proxy with
    | .error _, true => do
      truncate now temp
      attempt (download now temp)
    | result, _ => pure result)
  match result with
  | .ok _ => attempt (perform .sync)
  | .error e => return .error e

/-- `expired`. -/
def expired (file : Option File) (interval : Option Nat) : Bool :=
  (interval.any fun v => decide (0 < v)) &&
    (file.all fun file => decide (now < file.modified) ||
      decide (interval.getD 0 ≤ now - file.modified))

/-- `asset`. -/
def asset (proxy : Bool) (path url : Text) (interval : Option Nat) (refresh : Bool) :
    Loading Path := do
  let file ← stat (.real path)
  match file, refresh && expired now file interval with
  | some file, false => if file.data.length ≤ sizeLimit then return .real path else throw .sizeLimit
  | file, _ =>
    if interval.isNone || url.isEmpty then throw .missing
    else do
      let temp ← create now path
      match ← fetch now proxy temp with
      | .ok _ => return temp
      | .error e =>
        if file.isSome then do
          modify (Disk.discard temp)
          return .real path
        else throw e

/-- `rename`. -/
def rename (entry : Path × Path) : Loading Unit := do
  perform .rename
  let disk ← get
  match disk.files entry.1 with
  | some _ => modify (Disk.move entry.1 entry.2)
  | none => throw .rename

/-- `commit`: the list is taken out before the first file is renamed. -/
def commit : Loading Unit := do
  let disk ← get
  modify fun disk => { disk with staged := [] }
  forEach rename disk.staged

/-- `asset_path`. -/
def assetPath (root path : Text) : Except ResourceError Text :=
  if path.isEmpty then .error .pathRequired
  else if path.head? = some '/' then .ok path
  else .ok (root ++ '/' :: path)

/-- `geo_interval`. -/
def geoInterval (config : Config) : Option Nat :=
  some (if config.geoAutoUpdate then min (config.geoUpdateInterval * 3600) (2 ^ 64 - 1) else 0)

/-- A library's answer. -/
def orFail {α : Type} (e : ResourceError) : Option α → Loading α
  | some a => pure a
  | none => throw e

/-- One rule provider: its condition, and what it was built from if that was a file. -/
def loadProvider (config : Config) (previous : Resources Filter) (refresh proxy : Bool)
    (entry : Sigma fun _ : Text => RuleProvider) :
    Loading (Text × Matcher × Option ProviderSource) := do
  let p := entry.2
  if p.kind = "inline".toList then do
    let matcher ← ofExcept (providerMatcher lib p p.payload)
    return (entry.1, matcher, none)
  else do
    let path ← ofExcept (assetPath config.directory p.path)
    let data ← asset now proxy path p.url
      (if p.kind = "http".toList then some p.interval else none) refresh
    let stamp ← stampOf lib data
    let source : ProviderSource := ⟨p.behavior, p.format, stamp⟩
    match previous.providers.lookup entry.1 with
    | some (built, matcher) =>
      if built = source then return (entry.1, matcher, some source)
      else do
        let matcher ← parseProvider p data
        return (entry.1, matcher, some source)
    | none => do
      let matcher ← parseProvider p data
      return (entry.1, matcher, some source)
where
  /-- Reads the file of a provider. -/
  parseProvider (p : RuleProvider) (data : Path) : Loading Matcher := do
    let bytes ← readLimited data
    let payload ← orFail .payload (lib.parsePayload bytes p.format)
    ofExcept (providerMatcher lib p payload)

/-- The tags of one kind among the references. -/
def tagsOf (kind : DataKind) (refs : List Reference) : List Text :=
  (refs.filter fun reference => reference.1 == kind).map Prod.snd

/-- The data of a file for each tag, or what the previous snapshot has of an unchanged one. -/
def loadTags (previous : Resources Filter) (kind : DataKind) (path : Text) (data : Path)
    (e : ResourceError) (parse : Bytes → Text → Option Matcher) (tags : List Text) :
    Loading (List (Reference × Matcher)) := do
  match if data = .real path then previous.reuse kind tags else none with
  | some found => return found
  | none => do
    let bytes ← readFile data
    collect (fun tag => do
      let m ← orFail e (parse bytes tag)
      return ((kind, tag), m)) tags

/-- The nets of the GEOIP tag `private`. -/
def privateNets : List Text :=
  ["0.0.0.0/8", "10.0.0.0/8", "100.64.0.0/10", "127.0.0.0/8", "169.254.0.0/16", "172.16.0.0/12",
    "192.168.0.0/16", "::/128", "::1/128", "fc00::/7", "fe80::/10"].map String.toList

/-- The condition of a GEOIP tag with `Country.mmdb`. -/
def mmdbMatcher (db : Text → IpAddr → Bool) (tag : Text) : Option Matcher :=
  if tag = "private".toList then
    (privateNets.mapM lib.parseNet).map fun nets => .nets (.new nets false)
  else some (.externalIp (db tag))

/-- The GEOIP data. -/
def loadGeoip (config : Config) (previous : Resources Filter) (geoRefresh proxy : Bool)
    (tags : List Text) : Loading (List (Reference × Matcher)) :=
  if tags.isEmpty then pure []
  else if config.geodataMode then do
    let path := config.directory ++ "/geoip.dat".toList
    let data ← asset now proxy path config.geoxUrl.geoip (geoInterval config) geoRefresh
    loadTags previous .geoip path data .geoip lib.geoip tags
  else do
    let path := config.directory ++ "/Country.mmdb".toList
    let data ← asset now proxy path config.geoxUrl.mmdb (geoInterval config) geoRefresh
    let bytes ← readLimited data
    let db ← orFail .mmdb (lib.mmdb bytes)
    collect (fun tag => do
      let m ← orFail (.rule .address) (mmdbMatcher lib db tag)
      return ((.geoip, tag), m)) tags

/-- The GEOSITE data. -/
def loadGeosite (config : Config) (previous : Resources Filter) (geoRefresh proxy : Bool)
    (tags : List Text) : Loading (List (Reference × Matcher)) :=
  if tags.isEmpty then pure []
  else do
    let path := config.directory ++ "/geosite.dat".toList
    let data ← asset now proxy path config.geoxUrl.geosite (geoInterval config) geoRefresh
    loadTags previous .geosite path data .geosite lib.geosite tags

/-- `allow_set`. -/
def allowSet (patterns : List Text) : DomainSet :=
  let b := patterns.foldl (fun b pattern => (allowPattern lib.toRuleLib b pattern).toOption.getD b)
    ({} : DomainSetBuilder)
  b.build lib.hash lib.regex

/-- One ad-block list: its file, if it can be had, and what it was read from. -/
def loadList (config : Config) (refresh proxy : Bool) (list : AdblockList) :
    Loading (Except ResourceError Path × ListSource) := do
  let data ← attempt do
    perform .createDir
    asset now proxy (config.directory ++ '/' :: list.fileName) list.url
      (some config.adblock.interval) refresh
  match data with
  | .ok path => do
    let stamp ← attempt (stampOf lib path)
    return (data, ⟨list, stamp.toOption⟩)
  | .error _ => return (data, ⟨list, none⟩)

/-- Reads the lists that can be read. -/
def readLists : List (AdblockList × Except ResourceError Path) →
    DomainSetBuilder × DomainSetBuilder × List IpNet →
    Loading (DomainSetBuilder × DomainSetBuilder × List IpNet)
  | [], contents => pure contents
  | (_, .error _) :: rest, contents => readLists rest contents
  | (list, .ok path) :: rest, contents => do
    match ← attempt (readLimited path) with
    | .ok bytes => readLists rest (lib.parseList bytes list.format contents)
    | .error _ => readLists rest contents

/-- `adblock`. -/
def adblock (config : Config) (previous : Resources Filter) (refresh proxy : Bool) :
    Loading (Option Filter × List ListSource) :=
  let settings := config.adblock
  if !settings.enable then pure (none, [])
  else do
    let resolved ← collect (loadList lib now config refresh proxy) settings.lists
    let sources := resolved.map Prod.snd
    match previous.adblock, decide (previous.adblockSources = sources) with
    | some active, true =>
      -- `with_lists`
      return (some { active with
        userAllow := allowSet lib settings.allow
        blockHttpdns := settings.blockHttpdns
        quicFallback := settings.quicFallback }, sources)
    | _, _ => do
      let (block, allow, addresses) ←
        readLists lib (settings.lists.zip (resolved.map Prod.fst)) ({}, {}, [])
      return (some {
        block := block.build lib.hash lib.regex
        listAllow := allow.build lib.hash lib.regex
        userAllow := allowSet lib settings.allow
        addresses
        endpoints := lib.endpoints
        blockHttpdns := settings.blockHttpdns
        quicFallback := settings.quicFallback }, sources)

/-- Inserts all of these. -/
def extend (t : Table Reference Matcher) (l : List (Reference × Matcher)) :
    Table Reference Matcher :=
  l.foldl (fun t entry => t.insert entry.1 entry.2) t

/-- Binds the providers to the data. -/
def bindProviders (matchers : Table Reference Matcher) :
    List (Text × Matcher) → Except ResourceError (Table Reference Matcher)
  | [] => .ok matchers
  | (name, m) :: rest => do
    let bound ← ({ matchers } : Resources Filter).bind m
    bindProviders (matchers.insert (.ruleSet, name) bound) rest

/-- The data of the snapshot: providers, GEOIP, GEOSITE; the rules must bind to it. -/
def loadData (config : Config) (refresh proxy : Bool) (previous : Resources Filter) :
    Loading (Resources Filter) := do
  let geoRefresh := refresh && (!config.internalHostPacketIo || previous.matchers.entries.isEmpty)
  let refs ← ofExcept (references lib.toRuleLib config)
  let providers ← collect (loadProvider lib now config previous refresh proxy)
    config.ruleProviders.entries
  let refs := (refs ++ providers.flatMap fun p => p.2.1.references).eraseDups
  let geoip ← loadGeoip lib now config previous geoRefresh proxy (tagsOf .geoip refs)
  let geosite ← loadGeosite lib now config previous geoRefresh proxy (tagsOf .geosite refs)
  let matchers ← ofExcept (bindProviders (extend ∅ (geoip ++ geosite))
    (providers.map fun p => (p.1, p.2.1)))
  let sources := providers.foldl (fun (t : Table Text (ProviderSource × Matcher)) p =>
    match p.2.2 with
    | some source => t.insert p.1 (source, p.2.1)
    | none => t) ∅
  let out : Resources Filter := { matchers, providers := sources }
  let _ ← ofExcept (out.rules lib.toRuleLib config.rules)
  return out

/-- The body of `load`, up to the commit. -/
def loadStaged (config : Config) (refresh proxy : Bool) (previous : Resources Filter) :
    Loading (Resources Filter) := do
  let out ← loadData lib now config refresh proxy previous
  let (filter, adblockSources) ← adblock lib now config previous refresh proxy
  return { out with adblock := filter, adblockSources }

/-- The same, up to the end of `commit`. -/
def loadAndCommit (config : Config) (refresh proxy : Bool) (previous : Resources Filter) :
    Loading (Resources Filter) := do
  let out ← loadStaged lib now config refresh proxy previous
  commit
  return out

/-- `load`. On an error the staged files are dropped. -/
def load (config : Config) (refresh proxy : Bool) (previous : Resources Filter) :
    Loading (Resources Filter) := do
  modify fun disk => { disk with staged := [] }
  match ← attempt (loadAndCommit lib now config refresh proxy previous) with
  | .ok out => return out
  | .error e => do
    modify Disk.dropStaged
    throw e

end Loading

/-! ## A failed load leaves the files alone -/

/-- The real files and the temporary ones that were there are as they were, and every new
temporary file is staged. -/
structure Contained (before disk : Disk) : Prop where
  real : ∀ name, disk.files (.real name) = before.files (.real name)
  old : ∀ name id, id < before.nextId →
    disk.files (.temp name id) = before.files (.temp name id)
  staged : ∀ name id, before.nextId ≤ id → disk.files (.temp name id) ≠ none →
    ∃ target, (Path.temp name id, target) ∈ disk.staged
  fresh : ∀ entry ∈ disk.staged, ∃ name id, entry = (.temp name id, .real name) ∧
    before.nextId ≤ id
  next : before.nextId ≤ disk.nextId

/-- The temporary file is staged. -/
def Owned (temp : Path) (disk : Disk) : Prop := ∃ target, (temp, target) ∈ disk.staged

section Contained

variable {before disk : Disk} {temp : Path} (h : Contained before disk)
include h

/-- Only new temporary files are staged. -/
theorem Contained.owned (howned : Owned temp disk) :
    ∃ name id, temp = .temp name id ∧ before.nextId ≤ id := by
  obtain ⟨target, hmem⟩ := howned
  obtain ⟨name, id, heq, hid⟩ := h.fresh _ hmem
  exact ⟨name, id, congrArg Prod.fst heq, hid⟩

/-- A change to a temporary file that is staged, or no longer there. -/
theorem Contained.change {disk' : Disk} {file : Option File}
    (howned : Owned temp disk) (hfiles : disk'.files = update disk.files temp file)
    (hstaged : disk'.staged ⊆ disk.staged) (hnext : disk'.nextId = disk.nextId)
    (hself : file ≠ none → Owned temp disk')
    (hother : ∀ path, path ≠ temp → Owned path disk → Owned path disk') :
    Contained before disk' := by
  obtain ⟨name, id, rfl, hid⟩ := h.owned howned
  refine ⟨fun other => ?_, fun other old hold => ?_, fun other new hnew hsome => ?_,
    fun entry hentry => h.fresh entry (hstaged hentry), hnext ▸ h.next⟩
  · rw [hfiles]
    exact h.real other
  · rw [hfiles, update_of_ne (by simp; omega)]
    exact h.old other old hold
  · rw [hfiles] at hsome
    by_cases heq : Path.temp other new = .temp name id
    · rw [heq, update_self] at hsome
      rw [heq]
      exact hself hsome
    · rw [update_of_ne heq] at hsome
      exact hother _ heq (h.staged other new hnew hsome)

theorem Contained.write (howned : Owned temp disk) (data : Bytes)
    (now : Nat) : Contained before (disk.write temp data now) :=
  h.change howned rfl (List.Subset.refl _) rfl (fun _ => howned) fun _ _ hpath => hpath

theorem Contained.stage (path : Text) : Contained before (disk.stage path) := by
  refine ⟨h.real, h.old, fun name id hid hsome => ?_, fun entry hentry => ?_, ?_⟩
  · obtain ⟨target, hmem⟩ := h.staged name id hid hsome
    exact ⟨target, mem_append_left _ hmem⟩
  · rcases mem_append.mp hentry with hold | hnew
    · exact h.fresh entry hold
    · rw [mem_singleton.mp hnew]
      exact ⟨path, disk.nextId, rfl, h.next⟩
  · exact h.next.trans (Nat.le_succ _)

theorem Contained.discard (howned : Owned temp disk) : Contained before (disk.discard temp) := by
  refine h.change howned rfl (fun _ => mem_of_mem_filter) rfl (absurd rfl) ?_
  rintro path hne ⟨target, hmem⟩
  exact ⟨target, mem_filter.mpr ⟨hmem, bne_iff_ne.mpr hne⟩⟩

/-- Dropping what is staged brings back the files. -/
theorem Contained.files_dropStaged
    (hfresh : ∀ name id, before.nextId ≤ id → before.files (.temp name id) = none) :
    disk.dropStaged.files = before.files := by
  funext path
  show (if disk.staged.any (fun entry => entry.1 == path) then none else disk.files path) = _
  split
  · next hstaged =>
    obtain ⟨entry, hmem, heq⟩ := any_eq_true.mp hstaged
    obtain ⟨name, id, rfl, hid⟩ := h.fresh entry hmem
    rw [← eq_of_beq heq, hfresh name id hid]
  · next hstaged =>
    cases path with
    | real name => exact h.real name
    | temp name id =>
      by_cases hid : id < before.nextId
      · exact h.old name id hid
      · rw [hfresh name id (Nat.le_of_not_lt hid)]
        by_contra hsome
        obtain ⟨target, hmem⟩ := h.staged name id (Nat.le_of_not_lt hid) hsome
        exact hstaged (any_eq_true.mpr ⟨_, hmem, beq_self_eq_true _⟩)

end Contained

variable {before : Disk} {lib : DataLib} {now : Nat} {config : Config}
  {previous : Resources Filter} {refresh proxy : Bool}

section Safe

open Scripted

variable {I : Disk → Prop} {α : Type}

/-- A program that keeps an invariant of the disk, also where it fails. -/
abbrev Safe (I : Disk → Prop) (m : Loading α) : Prop :=
  Keeps I (fun _ => True) (fun _ => True) m fun _ _ => True

theorem safe_pure (a : α) : Safe I (pure a) := .pure fun _ _ _ => trivial

theorem safe_get : Safe I get := .get fun _ _ _ => trivial

theorem safe_ask : Safe I ask := .ask fun _ _ _ _ => trivial

theorem safe_ofExcept (r : Except ResourceError α) : Safe I (ofExcept r) :=
  .ofExcept fun _ _ _ _ => trivial

theorem safe_modify {f : Disk → Disk} (h : ∀ s, I s → I (f s)) : Safe I (modify f) :=
  .modify fun s hs _ => ⟨h s hs, trivial⟩

theorem safe_attempt {m : Loading α} (h : Safe I m) : Safe I (attempt m) :=
  .attempt h fun _ _ _ => trivial

theorem safe_orFail (e : ResourceError) (o : Option α) : Safe I (orFail e o) := by
  cases o with
  | none => exact .throw
  | some a => exact safe_pure a

theorem safe_perform (e : ResourceError) : Safe I (perform e) := by
  refine .bind safe_ask fun event => ?_
  cases event with
  | done data => exact safe_pure ()
  | failed data => exact .throw

theorem safe_stat (path : Path) : Safe I (stat path) := by
  refine .bind safe_ask fun event => ?_
  cases event with
  | done data => exact .bind safe_get fun _ => safe_pure _
  | failed data => exact safe_pure none

theorem safe_readFile (path : Path) : Safe I (readFile path) := by
  refine .bind (safe_perform .read) fun _ => .bind safe_get fun disk => ?_
  cases disk.files path with
  | some file => exact safe_pure file.data
  | none => exact .throw

theorem safe_readLimited (path : Path) : Safe I (readLimited path) := by
  refine .bind (safe_readFile path) fun data => ?_
  split
  · exact safe_pure data
  · exact .throw

theorem safe_stampOf (path : Path) : Safe I (stampOf lib path) :=
  .bind (safe_readFile path) fun _ => safe_pure _

/-- A temporary file is staged before it exists. -/
theorem keeps_create (path : Text) :
    Keeps (Contained before) (fun _ => True) (fun _ => True) (create now path) Owned := by
  refine .bind (safe_perform .createDir) fun _ => .get_bind fun disk _ _ => ?_
  refine .bind (R := fun _ => Owned (.temp path disk.nextId)) (.modify ?_) fun _ => ?_
  · rintro s hs rfl
    exact ⟨hs.stage path, .real path, mem_append_right _ mem_cons_self⟩
  refine .bind (R := fun _ => Owned (.temp path disk.nextId)) ?_ fun _ =>
    .bind (R := fun _ => Owned (.temp path disk.nextId)) (.modify fun s hs howned => ?_) fun _ =>
      .pure fun s _ howned => howned
  · exact (safe_perform (I := fun s => Contained before s ∧ Owned (.temp path disk.nextId) s)
      .create).under (fun s hs howned => ⟨⟨hs, howned⟩, trivial⟩) (fun _ hs => hs.1)
      fun _ _ hs _ => hs.2
  · exact ⟨hs.write howned [] now, howned⟩

/-- The invariant while a temporary file is written to. -/
def Writing (before : Disk) (temp : Path) (disk : Disk) : Prop :=
  Contained before disk ∧ Owned temp disk

theorem safe_write (temp : Path) (data : Bytes) :
    Safe (Writing before temp) (modify (Disk.write temp data now)) :=
  safe_modify fun _ hs => ⟨hs.1.write hs.2 data now, hs.2⟩

theorem safe_download (temp : Path) : Safe (Writing before temp) (download now temp) := by
  refine .bind safe_ask fun event => ?_
  cases event with
  | done data => exact safe_write temp data
  | failed data => exact .bind (safe_write temp data) fun _ => .throw

theorem safe_fetch (temp : Path) : Safe (Writing before temp) (fetch now proxy temp) := by
  have hdownload : Safe (Writing before temp) (attempt (download now temp)) :=
    safe_attempt (safe_download temp)
  have htruncate : Safe (Writing before temp) (truncate now temp) :=
    .bind (safe_perform .truncate) fun _ => safe_write temp []
  refine .bind hdownload fun direct => .bind (R := fun _ _ => True) ?_ fun result => ?_
  · split
    · exact .bind htruncate fun _ => hdownload
    · exact safe_pure _
  · cases result with
    | ok _ => exact safe_attempt (safe_perform .sync)
    | error e => exact safe_pure _

theorem safe_asset (path url : Text) (interval : Option Nat) :
    Safe (Contained before) (asset now proxy path url interval refresh) := by
  refine .bind (safe_stat _) fun file => ?_
  split
  · split
    · exact safe_pure _
    · exact .throw
  split
  · exact .throw
  refine .bind (keeps_create path) fun temp => ?_
  refine .bind (R := fun _ => Owned temp) ((safe_fetch temp).under
    (fun _ hs howned => ⟨⟨hs, howned⟩, trivial⟩) (fun _ hs => hs.1) fun _ _ hs _ => hs.2)
    fun result => ?_
  cases result with
  | ok _ => exact .pure fun _ _ _ => trivial
  | error e =>
    dsimp only
    split
    · exact .bind (R := fun _ _ => True)
        (.modify fun _ hs howned => ⟨hs.discard howned, trivial⟩) fun _ => safe_pure _
    · exact .throw

theorem safe_loadProvider (entry : Sigma fun _ : Text => RuleProvider) :
    Safe (Contained before) (loadProvider lib now config previous refresh proxy entry) := by
  have hparse (p : RuleProvider) (data : Path) :
      Safe (Contained before) (loadProvider.parseProvider lib p data) :=
    .bind (safe_readLimited data) fun _ => .bind (safe_orFail _ _) fun _ => safe_ofExcept _
  unfold loadProvider
  dsimp only
  split
  · exact .bind (safe_ofExcept _) fun _ => safe_pure _
  refine .bind (safe_ofExcept _) fun path => .bind (safe_asset path _ _) fun data =>
    .bind (safe_stampOf data) fun stamp => ?_
  split
  · split
    · exact safe_pure _
    · exact .bind (hparse entry.2 data) fun _ => safe_pure _
  · exact .bind (hparse entry.2 data) fun _ => safe_pure _

theorem safe_loadTags (kind : DataKind) (path : Text) (data : Path) (e : ResourceError)
    (parse : Bytes → Text → Option Matcher) (tags : List Text) :
    Safe I (loadTags previous kind path data e parse tags) := by
  unfold loadTags
  split
  · exact safe_pure _
  · exact .bind (safe_readFile data) fun bytes => .collect
      (fun tag => .bind (safe_orFail _ _) fun _ => safe_pure _) tags

theorem safe_loadGeoip (tags : List Text) :
    Safe (Contained before) (loadGeoip lib now config previous refresh proxy tags) := by
  unfold loadGeoip
  split
  · exact safe_pure _
  split
  · exact .bind (safe_asset _ _ _) fun data => safe_loadTags _ _ data _ _ tags
  · exact .bind (safe_asset _ _ _) fun data => .bind (safe_readLimited data) fun bytes =>
      .bind (safe_orFail _ _) fun db => .collect
        (fun tag => .bind (safe_orFail _ _) fun _ => safe_pure _) tags

theorem safe_loadGeosite (tags : List Text) :
    Safe (Contained before) (loadGeosite lib now config previous refresh proxy tags) := by
  unfold loadGeosite
  split
  · exact safe_pure _
  · exact .bind (safe_asset _ _ _) fun data => safe_loadTags _ _ data _ _ tags

theorem safe_loadList (list : AdblockList) :
    Safe (Contained before) (loadList lib now config refresh proxy list) := by
  refine .bind (safe_attempt (.bind (safe_perform _) fun _ => safe_asset _ _ _)) fun data => ?_
  cases data with
  | ok path => exact .bind (safe_attempt (safe_stampOf path)) fun _ => safe_pure _
  | error e => exact safe_pure _

theorem safe_readLists : ∀ lists contents, Safe I (readLists lib lists contents)
  | [], contents => safe_pure contents
  | (_, .error _) :: rest, contents => safe_readLists rest contents
  | (list, .ok path) :: rest, contents => by
    refine .bind (safe_attempt (safe_readLimited path)) fun result => ?_
    cases result with
    | ok bytes => exact safe_readLists rest _
    | error e => exact safe_readLists rest contents

theorem safe_adblock :
    Safe (Contained before) (adblock lib now config previous refresh proxy) := by
  unfold adblock
  dsimp only
  split
  · exact safe_pure _
  refine .bind (.collect safe_loadList _) fun resolved => ?_
  split
  · exact safe_pure _
  · exact .bind (safe_readLists _ _) fun _ => safe_pure _

theorem safe_loadData :
    Safe (Contained before) (loadData lib now config refresh proxy previous) :=
  .bind (safe_ofExcept _) fun _ => .bind (.collect safe_loadProvider _) fun _ =>
    .bind (safe_loadGeoip _) fun _ => .bind (safe_loadGeosite _) fun _ =>
      .bind (safe_ofExcept _) fun _ => .bind (safe_ofExcept _) fun _ => safe_pure _

end Safe

section Commit

open Scripted

variable {script rest : List Event} {disk after : Disk} {e : ResourceError}

/-- A rename moves its file, or leaves the disk alone. -/
theorem rename_cases (entry : Path × Path) (script : List Event) (disk : Disk) :
    (∃ rest, rename entry script disk = .error .rename rest disk) ∨
      ∃ rest file, disk.files entry.1 = some file ∧
        rename entry script disk = .ok () rest (disk.move entry.1 entry.2) := by
  have hperform : perform .rename script disk = match script.headD default with
      | .done _ => .ok () script.tail disk
      | .failed _ => .error .rename script.tail disk := by
    change (match script.headD default with | .done _ => pure () | .failed _ => throw _ :
      Loading Unit) script.tail disk = _
    cases script.headD default with
    | done | failed => rfl
  have hrename : rename entry script disk = (perform .rename script disk).andThen _ := rfl
  rw [hrename, hperform]
  cases script.headD default with
  | failed data => exact .inl ⟨_, rfl⟩
  | done data =>
    cases hfile : disk.files entry.1 with
    | none =>
      refine .inl ⟨script.tail, ?_⟩
      simp only [Ending.andThen, Scripted.get_bind, hfile]
      rfl
    | some file =>
      refine .inr ⟨script.tail, file, rfl, ?_⟩
      simp only [Ending.andThen, Scripted.get_bind, hfile]
      rfl

/-- A commit that fails has not renamed anything, or a staged file is in place. -/
theorem forEach_rename_error {entries : List (Path × Path)}
    (hentries : ∀ entry ∈ entries, ∃ name id, entry = (.temp name id, .real name))
    (h : forEach rename entries script disk = .error e rest after) :
    after.staged = disk.staged ∧ (after.files = disk.files ∨
      ∃ entry ∈ entries, ∃ file, disk.files entry.1 = some file ∧
        after.files entry.2 = some file) := by
  induction entries generalizing script disk with
  | nil => cases h
  | cons entry entries ih =>
    obtain ⟨name, id, rfl⟩ := hentries _ mem_cons_self
    obtain ⟨rest', hfails⟩ | ⟨rest', file, hfile, hmoves⟩ :=
      rename_cases (.temp name id, .real name) script disk
    · rcases bind_eq_error h with hfirst | ⟨_, _, _, hfirst, -⟩
      · cases hfails.symm.trans hfirst
        exact ⟨rfl, .inl rfl⟩
      · cases hfails.symm.trans hfirst
    · have hrest : forEach rename entries rest' (disk.move (.temp name id) (.real name)) =
          .error e rest after := (bind_of_ok hmoves).symm.trans h
      obtain ⟨hstaged, hfiles⟩ :=
        ih (fun entry hentry => hentries _ (mem_cons_of_mem _ hentry)) hrest
      refine ⟨hstaged, .inr ?_⟩
      rcases hfiles with hsame | ⟨other, hother, file', hfile', hafter⟩
      · refine ⟨_, mem_cons_self, file, hfile, ?_⟩
        rw [hsame]
        simp [Disk.move, hfile]
      · -- a temporary file that is there now was there before
        obtain ⟨name', id', rfl⟩ := hentries _ (mem_cons_of_mem _ hother)
        refine ⟨_, mem_cons_of_mem _ hother, file', ?_, hafter⟩
        by_cases heq : Path.temp name' id' = .temp name id
        · simp [Disk.move, heq] at hfile'
        · simpa [Disk.move, update_of_ne heq] using hfile'

theorem safe_loadStaged :
    Safe (Contained before) (loadStaged lib now config refresh proxy previous) :=
  .bind safe_loadData fun _ => .bind safe_adblock fun _ => safe_pure _

/-- A load fails before its commit, or in it. -/
theorem load_eq_error
    (h : load lib now config refresh proxy previous script disk = .error e rest after) :
    (∃ mid, loadStaged lib now config refresh proxy previous script { disk with staged := [] } =
        .error e rest mid ∧ after = mid.dropStaged) ∨
      ∃ out mid staged end', loadStaged lib now config refresh proxy previous script
          { disk with staged := [] } = .ok out mid staged ∧
        forEach rename staged.staged mid { staged with staged := [] } = .error e rest end' ∧
        after = end'.dropStaged := by
  obtain ⟨mid, hcommit, rfl⟩ : ∃ mid, loadAndCommit lib now config refresh proxy previous script
      { disk with staged := [] } = .error e rest mid ∧ after = mid.dropStaged := by
    change (Ending.reify _).andThen _ = _ at h
    cases hrun : loadAndCommit lib now config refresh proxy previous script
      { disk with staged := [] } with
    | ok | crashed =>
      rw [hrun] at h
      cases h
    | error e' rest' mid =>
      rw [hrun] at h
      cases h
      exact ⟨mid, rfl, rfl⟩
  rcases bind_eq_error hcommit with hstaged | ⟨out, mid', staged, hstaged, hcommit⟩
  · exact .inl ⟨mid, hstaged, rfl⟩
  · rcases bind_eq_error hcommit with hcommit | ⟨_, _, _, _, hpure⟩
    · exact .inr ⟨out, mid', staged, mid, hstaged, hcommit, rfl⟩
    · cases hpure

/-- **A load that fails** leaves all files as they were if it fails before its commit, or if none of
the files it has staged is there. If they differ from the files they were to replace, it leaves them
only then. -/
theorem load_error_keeps_files
    (hfresh : ∀ name id, before.nextId ≤ id → before.files (.temp name id) = none)
    (hload : load lib now config refresh proxy previous script before = .error e rest after) :
    ((∀ out mid disk, loadStaged lib now config refresh proxy previous script
        { before with staged := [] } = .ok out mid disk →
          ∀ entry ∈ disk.staged, disk.files entry.1 = none) →
      after.files = before.files) ∧
    (after.files = before.files → ∀ out mid disk,
      loadStaged lib now config refresh proxy previous script { before with staged := [] } =
        .ok out mid disk →
      (∀ entry ∈ disk.staged, ∀ file, disk.files entry.1 = some file →
        disk.files entry.2 ≠ some file) →
      ∀ entry ∈ disk.staged, disk.files entry.1 = none) := by
  have hstart : Contained before { before with staged := [] } :=
    ⟨fun _ => rfl, fun _ _ _ => rfl, fun name id hid hsome => absurd (hfresh name id hid) hsome,
      fun entry hentry => absurd hentry not_mem_nil, Nat.le_refl _⟩
  have hkeeps : Safe (Contained before) (loadStaged lib now config refresh proxy previous) :=
    safe_loadStaged
  have hsafe := hkeeps script { before with staged := [] } ⟨hstart, trivial⟩
  obtain ⟨mid, hfails, rfl⟩ | ⟨out, mid, disk, end', hstaged, hcommit, rfl⟩ := load_eq_error hload
  · rw [hfails] at hsafe ⊢
    have hfiles : mid.dropStaged.files = before.files := hsafe.files_dropStaged hfresh
    exact ⟨fun _ => hfiles, fun _ _ _ _ h => nomatch h⟩
  · rw [hstaged] at hsafe
    have hcontained : Contained before disk := hsafe.1
    obtain ⟨hnone, hfiles⟩ := forEach_rename_error (fun entry hentry => by
      obtain ⟨name, id, heq, -⟩ := hcontained.fresh entry hentry
      exact ⟨name, id, heq⟩) hcommit
    -- the commit has taken the list, so nothing is dropped
    have hdrop : end'.dropStaged.files = end'.files := by
      simp [Disk.dropStaged, hnone]
    rw [hdrop]
    constructor
    · intro hnothing
      rcases hfiles with hsame | ⟨entry, hentry, file, hfile, -⟩
      · rw [hsame, ← hcontained.files_dropStaged hfresh]
        funext path
        show disk.files path = if disk.staged.any (fun entry => entry.1 == path) then none else _
        split
        · next hpath =>
          obtain ⟨entry, hentry, heq⟩ := any_eq_true.mp hpath
          rw [← eq_of_beq heq, hnothing out mid disk hstaged entry hentry]
        · rfl
      · cases (hnothing out mid disk hstaged entry hentry).symm.trans hfile
    · intro hsame out' mid' disk' hstaged' hnew entry hentry
      cases hstaged.symm.trans hstaged'
      cases hfile : disk.files entry.1 with
      | none => rfl
      | some file =>
        exfalso
        rcases hfiles with hunmoved | ⟨other, hother, file', hfile', hmoved⟩
        · obtain ⟨name, id, rfl, hid⟩ := hcontained.fresh entry hentry
          have htemp := congrFun (hunmoved.symm.trans hsame) (.temp name id)
          rw [hfresh name id hid] at htemp
          cases htemp.symm.trans hfile
        · obtain ⟨name, id, rfl, -⟩ := hcontained.fresh other hother
          refine hnew _ hother file' hfile' ?_
          rw [← hmoved, hsame]
          exact hcontained.real name

end Commit

/-! ## What a load that succeeds has loaded -/

section

open Scripted

variable {kind : DataKind}

/-- What the data of a load is for: the GEOSITE tags that the configuration refers to or that the
condition of a provider does, and the providers. -/
structure Loaded (refs : List Reference) (config : Config) (conditions : List (Text × Matcher))
    (r : Resources Filter) : Prop where
  geosite : ∀ tag, (.geosite, tag) ∈ r.matchers ↔
    (.geosite, tag) ∈ refs ∨ ∃ c ∈ conditions, (.geosite, tag) ∈ c.2.references
  provider : ∀ name, (.ruleSet, name) ∈ r.matchers ↔ name ∈ config.ruleProviders

theorem map_fst_of_reuse :
    ∀ {tags : List Text} {found : List (Reference × Matcher)},
      previous.reuse kind tags = some found → found.map Prod.fst = tags.map (kind, ·)
  | [], found, h => by
    obtain rfl := Option.some.inj h
    rfl
  | tag :: tags, found, h => by
    unfold Resources.reuse at h
    rw [mapM_cons] at h
    obtain ⟨head, hhead, h⟩ := bind_eq_some_iff.mp h
    obtain ⟨rest, hrest, h⟩ := bind_eq_some_iff.mp h
    obtain ⟨m, -, rfl⟩ := map_eq_some_iff.mp hhead
    obtain rfl := Option.some.inj h
    rw [map_cons, map_cons, map_fst_of_reuse hrest]

/-- Results that name their tags. -/
theorem gives_collect_tags {f : Text → Loading (Reference × Matcher)}
    (h : ∀ tag, Gives (f tag) fun found => found.1 = (kind, tag)) (tags : List Text) :
    Gives (collect f tags) fun found => found.map Prod.fst = tags.map (kind, ·) := by
  intro script s found rest t hrun
  have hall := Gives.collect h tags script s found rest t hrun
  rw [← forall₂_eq_eq_eq, forall₂_map_left_iff, forall₂_map_right_iff]
  exact hall.flip

theorem gives_loadTags (kind : DataKind) (path : Text) (data : Path) (e : ResourceError)
    (parse : Bytes → Text → Option Matcher) (tags : List Text) :
    Gives (loadTags previous kind path data e parse tags) fun found =>
      found.map Prod.fst = tags.map (kind, ·) := by
  unfold loadTags
  split
  · next found hfound =>
    split at hfound
    · exact .pure (map_fst_of_reuse hfound)
    · cases hfound
  · exact .after fun bytes => gives_collect_tags (fun tag => .after fun m => .pure rfl) tags

theorem gives_loadGeoip (tags : List Text) :
    Gives (loadGeoip lib now config previous refresh proxy tags) fun found =>
      found.map Prod.fst = tags.map (.geoip, ·) := by
  unfold loadGeoip
  split
  · next hempty =>
    rw [isEmpty_iff.mp hempty]
    exact .pure rfl
  split
  · exact .after fun data => gives_loadTags _ _ data _ _ tags
  · exact .after fun data => .after fun bytes => .after fun db =>
      gives_collect_tags (fun tag => .after fun m => .pure rfl) tags

theorem gives_loadGeosite (tags : List Text) :
    Gives (loadGeosite lib now config previous refresh proxy tags) fun found =>
      found.map Prod.fst = tags.map (.geosite, ·) := by
  unfold loadGeosite
  split
  · next hempty =>
    rw [isEmpty_iff.mp hempty]
    exact .pure rfl
  · exact .after fun data => gives_loadTags _ _ data _ _ tags

theorem gives_loadProvider (entry : Sigma fun _ : Text => RuleProvider) :
    Gives (loadProvider lib now config previous refresh proxy entry) fun p => p.1 = entry.1 := by
  unfold loadProvider
  dsimp only
  split
  · exact .after fun _ => .pure rfl
  refine .after fun path => .after fun data => .after fun stamp => ?_
  split
  · split
    · exact .pure rfl
    · exact .after fun _ => .pure rfl
  · exact .after fun _ => .pure rfl

/-- What is there after all insertions was there or is inserted. -/
theorem mem_extend_iff {l : List (Reference × Matcher)} {reference : Reference} :
    ∀ {t : Table Reference Matcher},
      reference ∈ extend t l ↔ reference ∈ t ∨ reference ∈ l.map Prod.fst := by
  induction l with
  | nil => simp [extend]
  | cons entry l ih =>
    intro t
    change reference ∈ extend (t.insert entry.1 entry.2) l ↔ _
    rw [ih, AList.mem_insert, map_cons, mem_cons]
    tauto

/-- A provider is bound under its name, and nothing else is added. -/
theorem mem_bindProviders_iff {l : List (Text × Matcher)} {reference : Reference} :
    ∀ {t bound : Table Reference Matcher}, bindProviders t l = .ok bound →
      (reference ∈ bound ↔ reference ∈ t ∨ ∃ p ∈ l, reference = (.ruleSet, p.1)) := by
  induction l with
  | nil =>
    intro t bound h
    obtain rfl := Except.ok.inj h
    simp
  | cons entry l ih =>
    intro t bound h
    obtain ⟨m, -, h⟩ := bind_eq_ok h
    rw [ih h, AList.mem_insert, exists_mem_cons_iff]
    tauto

variable {refs : List Reference}

theorem mem_tagsOf_iff {tag : Text} : tag ∈ tagsOf kind refs ↔ (kind, tag) ∈ refs := by
  simp [tagsOf]

/-- The conditions of the providers as they were loaded. -/
abbrev ReadAs (lib : DataLib) (now : Nat) (config : Config) (previous : Resources Filter)
    (refresh proxy : Bool) : List (Text × Matcher) → Prop :=
  Forall₂ (fun entry c => c.1 = entry.1 ∧ ∃ source,
    (loadProvider lib now config previous refresh proxy entry).MayReturn (c.1, c.2, source))
    config.ruleProviders.entries

theorem gives_loadData (hrefs : references lib.toRuleLib config = .ok refs) :
    Gives (loadData lib now config refresh proxy previous) fun out =>
      ∃ conditions, ReadAs lib now config previous refresh proxy conditions ∧
        Loaded refs config conditions out := by
  refine .bind (.ofExcept _) fun refs' hrefs' => ?_
  obtain rfl : refs = refs' := Except.ok.inj (hrefs.symm.trans hrefs')
  have hone : ∀ entry, Gives (loadProvider lib now config previous refresh proxy entry) fun p =>
      p.1 = entry.1 ∧ ∃ source, (loadProvider lib now config previous refresh proxy entry).MayReturn
        (p.1, p.2.1, source) := fun entry script s p rest t h =>
    ⟨gives_loadProvider entry script s p rest t h, p.2.2, script, s, rest, t, h⟩
  refine .bind (.collect hone _) fun providers hproviders =>
    .bind (gives_loadGeoip _) fun geoip hgeoip =>
      .bind (gives_loadGeosite _) fun geosite hgeosite =>
        .bind (.ofExcept _) fun matchers hmatchers => .after fun _ => .pure ?_
  refine ⟨providers.map fun p => (p.1, p.2.1), forall₂_map_right_iff.mpr hproviders, ?_, ?_⟩
  · intro tag
    rw [mem_bindProviders_iff hmatchers, mem_extend_iff, map_append, hgeoip, hgeosite]
    simp [mem_tagsOf_iff]
  · intro name
    have hnames : providers.map Prod.fst = config.ruleProviders.keys := by
      rw [← forall₂_eq_eq_eq, AList.keys, keys, forall₂_map_left_iff, forall₂_map_right_iff]
      exact hproviders.flip.imp fun _ _ h => h.1
    change _ ↔ name ∈ config.ruleProviders.keys
    rw [mem_bindProviders_iff hmatchers, mem_extend_iff, map_append, hgeoip, hgeosite, ← hnames]
    simp [eq_comm]

/-- What a load returns is what its data is, whatever the filter. -/
theorem gives_load {Q : Resources Filter → Prop}
    (h : Gives (loadData lib now config refresh proxy previous) Q)
    (hfilter : ∀ out adblock adblockSources, Q out → Q { out with adblock, adblockSources }) :
    Gives (load lib now config refresh proxy previous) Q := by
  have hcommit : Gives (loadAndCommit lib now config refresh proxy previous) Q :=
    .bind (.bind h fun out hout => .after fun filter => .pure (hfilter out _ _ hout))
      fun out hout => .after fun _ => .pure hout
  refine .after fun _ => .bind (.attempt hcommit) fun result hresult => ?_
  cases result with
  | ok out => exact .pure (hresult out rfl)
  | error e => exact .after fun _ => .throw

variable {script rest : List Event} {disk after : Disk} {r : Resources Filter}
  (hload : load lib now config refresh proxy previous script disk = .ok r rest after)

include hload

/-- A load that succeeds has the data of the GEOSITE tags referred to, of the providers, and no
other. -/
theorem loaded_of_load (hrefs : references lib.toRuleLib config = .ok refs) :
    ∃ conditions, ReadAs lib now config previous refresh proxy conditions ∧
      Loaded refs config conditions r := by
  refine gives_load (gives_loadData hrefs) (fun _ _ _ hout => ?_) script disk r rest after hload
  obtain ⟨conditions, hread, hloaded⟩ := hout
  exact ⟨conditions, hread, hloaded.geosite, hloaded.provider⟩

/-- The rules of the configuration bind to the data. -/
theorem rules_of_load : ∃ rules, r.rules lib.toRuleLib config.rules = .ok rules := by
  have hdata : Gives (loadData lib now config refresh proxy previous) fun out =>
      ∃ rules, out.rules lib.toRuleLib config.rules = .ok rules :=
    .after fun _ => .after fun _ => .after fun _ => .after fun _ => .after fun _ =>
      .bind (.ofExcept _) fun rules hrules => .pure ⟨rules, hrules⟩
  exact gives_load hdata (fun _ _ _ hout => hout) script disk r rest after hload

end

section Examples

/-- Libraries that read nothing out of any file. -/
def DataLib.bare : DataLib where
  regex _ _ := none
  glob _ := none
  parseNet _ := none
  hash _ := 0
  parsePayload _ _ := some []
  geoip _ _ := some (.or [])
  mmdb _ := none
  geosite _ _ := some (.or [])
  parseList _ _ contents := contents
  digest _ := []
  endpoints := ⟨({} : DomainSetBuilder).build (fun _ => 0) (fun _ _ => none), []⟩

/-- A configuration with two providers that are downloaded. -/
def twoProviders : Config where
  rules := []
  geoxUrl := ⟨[], [], []⟩
  ruleProviders := (AList.insert ['a'] { path := ['a'], url := ['u'] }
    (AList.insert ['b'] { path := ['b'], url := ['v'] } ∅))

/-- The first download breaks off after a part of the file. -/
def brokenDownload : Ending Event Disk ResourceError (Resources Filter) :=
  load DataLib.bare 0 twoProviders false false {} (List.replicate 3 (.done []) ++ [.failed [1]])
    ⟨fun _ => none, 0, []⟩

theorem broken_download_keeps_files :
    brokenDownload.failure = some .download ∧ brokenDownload.state.files = fun _ => none := by
  have hfailure : brokenDownload.failure = some .download := by decide +kernel
  obtain ⟨rest, hload⟩ := Ending.eq_error_of_failure hfailure
  have hnone : (loadStaged DataLib.bare 0 twoProviders false false {}
      (List.replicate 3 (.done []) ++ [.failed [1]]) ⟨fun _ => none, 0, []⟩).value.isNone
        = true := by
    decide +kernel
  refine ⟨hfailure, (load_error_keeps_files (fun _ _ _ => rfl) hload).1 fun out mid disk h => ?_⟩
  rw [h] at hnone
  cases hnone

/-- Both providers are fetched and read, the first rename succeeds and the second fails. -/
def secondRenameFails : Ending Event Disk ResourceError (Resources Filter) :=
  load DataLib.bare 0 twoProviders false false {} (List.replicate 15 (.done [1]) ++ [.failed []])
    ⟨fun _ => none, 0, []⟩

/-- The first file has been replaced, and the second one's temporary file remains. -/
theorem rename_failure_leaves_files :
    secondRenameFails.failure = some .rename ∧
      secondRenameFails.state.files (.real ['.', '/', 'a']) = some ⟨[1], 0⟩ ∧
      secondRenameFails.state.files (.temp ['.', '/', 'b'] 1) = some ⟨[1], 0⟩ := by
  decide +kernel

end Examples

end Clyntis.Core
