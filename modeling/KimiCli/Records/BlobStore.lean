import KimiCli.Js.Json
import KimiCli.Js.Text
import KimiCli.Js.Utf8
import KimiCli.Lib.Holders
import KimiCli.Lib.OrderedMap

/-!
# The blob store

`agent-core/src/agent/records/blobref.ts`.  Large data URIs in the media of a record are written to
files named by the hash of their payload, and replaced by references to them.

Media containers are objects, which `rehydrate` changes in place; a reference to one is a position
in the list of all that were made.  Arrays, parts and records are never changed, only copied: where
the code returns the object that it was given, the result is `none`.
-/

namespace KimiCli

/-- What the store takes from its host; SHA-256 is taken to be free of collisions. -/
structure BlobCodec where
  sha256 : String → String
  fromBase64 : String → Bytes
  toBase64 : Bytes → String
  sha256_injective : Function.Injective sha256
  sha256_ne_empty : ∀ payload, sha256 payload ≠ ""

/-! ## Records -/

/-- An object with a property `url`. -/
structure MediaContainer where
  url : Json
  rest : List (String × Json) := []

inductive FieldValue (μ : Type)
  | plain (value : Json)
  | media (container : μ)

/-- The entries of a content part. -/
abbrev PartEntries (μ : Type) := List (String × FieldValue μ)

/-- The four shapes that carry media, and all other records. -/
inductive MediaRecord (μ : Type)
  | turnPrompt (input : List (PartEntries μ)) (rest : List (String × Json))
  | turnSteer (input : List (PartEntries μ)) (rest : List (String × Json))
  /-- `context.append_message` -/
  | appendMessage (content : List (PartEntries μ)) (message rest : List (String × Json))
  /-- `context.append_loop_event` with a `tool.result` -/
  | toolResult (output : String ⊕ List (PartEntries μ)) (result event rest : List (String × Json))
  | other (rest : List (String × Json))

/-! ## URLs -/

def isBlobRef (url : String) : Bool := "blobref:".toList.isPrefixOf url.toList

/-- `DATA_URI_HEADER_RE.exec`: the mime type, and what follows the match. -/
def dataUriHeader (value : String) : Option (String × String) :=
  let rest := value.toList.drop "data:".length
  let mimeType := rest.takeWhile (· ≠ ';')
  let tail := rest.dropWhile (· ≠ ';')
  if "data:".toList.isPrefixOf value.toList ∧ mimeType ≠ [] ∧
      ";base64,".toList.isPrefixOf tail then
    some (String.ofList mimeType, String.ofList (tail.drop ";base64,".length))
  else none

def missingMediaPlaceholder : String := "[media missing]"

/-- The mime type and the hash of a reference. -/
def blobRefParts (url : String) : Option (String × String) :=
  let rest := url.toList.drop "blobref:".length
  if ';' ∉ rest then none
  else
    let hash := (rest.dropWhile (· ≠ ';')).drop 1
    if hash = [] then none
    else some (String.ofList (rest.takeWhile (· ≠ ';')), String.ofList hash)

/-! ## The cache -/

structure BlobStore where
  threshold : ℕ := 4096
  maxCacheSize : ℕ := 50 * 1024 * 1024
  cache : OrderedMap String Bytes := ∅
  cacheSizes : OrderedMap String ℕ := ∅
  currentCacheSize : ℤ := 0

namespace BlobStore

variable (s : BlobStore)

/-- `evictLRU`, of the first key. -/
def evict (lru : String) : BlobStore :=
  { s with
    currentCacheSize := s.currentCacheSize - (s.cacheSizes.get lru).getD 0
    cache := s.cache.delete lru
    cacheSizes := s.cacheSizes.delete lru }

/-- The loop of `setCache`, over the entries that are in the cache. -/
def evictFor (size : ℕ) : List (String × Bytes) → BlobStore → BlobStore
  | [], s => s
  | lru :: entries, s =>
    if s.maxCacheSize < s.currentCacheSize + size then evictFor size entries (s.evict lru.1) else s

def setCache (hash : String) (payload : Bytes) : BlobStore :=
  let size := payload.length
  if (s.cache.get hash).isSome then
    { s with
      currentCacheSize := s.currentCacheSize + (size - (s.cacheSizes.get hash).getD 0)
      cache := (s.cache.delete hash).set hash payload
      cacheSizes := s.cacheSizes.set hash size }
  else if s.maxCacheSize < size then s
  else
    let s := evictFor size s.cache.entries s
    { s with
      currentCacheSize := s.currentCacheSize + size
      cache := s.cache.set hash payload
      cacheSizes := s.cacheSizes.set hash size }

variable {s} {hash other : String} {payload bytes : Bytes}

theorem get_evictFor {size : ℕ} {entries : List (String × Bytes)}
    (found : (evictFor size entries s).cache.get hash = some bytes) :
    s.cache.get hash = some bytes := by
  induction entries generalizing s with
  | nil => exact found
  | cons lru entries ih =>
    rw [evictFor] at found
    split at found
    · have kept : (s.cache.delete lru.1).get hash = some bytes := ih found
      exact OrderedMap.mem_entries.1
        (OrderedMap.mem_entries_delete.1 (OrderedMap.mem_entries.2 kept)).2
    · exact found

theorem get_setCache (found : (s.setCache hash payload).cache.get other = some bytes) :
    other = hash ∧ bytes = payload ∨ s.cache.get other = some bytes := by
  by_cases same : other = hash
  · subst same
    rw [setCache] at found
    dsimp only at found
    split at found
    · rw [OrderedMap.get_set_self] at found
      exact .inl ⟨rfl, (Option.some.inj found).symm⟩
    · split at found
      · exact .inr found
      · rw [OrderedMap.get_set_self] at found
        exact .inl ⟨rfl, (Option.some.inj found).symm⟩
  · refine .inr ?_
    rw [setCache] at found
    dsimp only at found
    split at found
    · rwa [OrderedMap.get_set_ne _ _ same, OrderedMap.get_delete_ne _ same] at found
    · split at found
      · exact found
      · rw [OrderedMap.get_set_ne _ _ same] at found
        exact get_evictFor found

theorem threshold_evictFor (size : ℕ) (entries : List (String × Bytes)) (s : BlobStore) :
    (evictFor size entries s).threshold = s.threshold := by
  induction entries generalizing s with
  | nil => rfl
  | cons lru entries ih =>
    rw [evictFor]
    split
    · exact ih _
    · rfl

theorem threshold_setCache (s : BlobStore) (hash : String) (payload : Bytes) :
    (s.setCache hash payload).threshold = s.threshold := by
  rw [setCache]
  split
  · rfl
  · split
    · rfl
    · exact threshold_evictFor ..

end BlobStore

/-! ## The files -/

/-- The directory: each file holds the payload that it is named for. -/
structure BlobFiles (codec : BlobCodec) where
  file : String → Option Bytes
  named : ∀ hash bytes, file hash = some bytes →
    ∃ payload, codec.sha256 payload = hash ∧ codec.fromBase64 payload = bytes

namespace BlobFiles

variable {codec : BlobCodec} (files : BlobFiles codec)

def empty : BlobFiles codec where
  file _ := none
  named := nofun

/-- `open(blobPath, 'wx')` and the write: a file that is there stays. -/
def write (payload : String) : BlobFiles codec where
  file hash :=
    if hash = codec.sha256 payload then
      (files.file hash).or (some (codec.fromBase64 payload))
    else files.file hash
  named hash bytes found := by
    split at found
    case isTrue same =>
      cases before : files.file hash with
      | some =>
        rw [before, Option.some_or] at found
        exact files.named hash bytes (before.trans found)
      | none =>
        rw [before, Option.none_or] at found
        exact ⟨payload, same.symm, Option.some.inj found⟩
    case isFalse => exact files.named hash bytes found

theorem file_write_self (payload : String) :
    (files.write payload).file (codec.sha256 payload) = some (codec.fromBase64 payload) := by
  rw [write]
  dsimp only
  rw [if_pos rfl]
  cases before : files.file (codec.sha256 payload) with
  | none => rfl
  | some =>
    obtain ⟨payload', same, rfl⟩ := files.named _ _ before
    rw [codec.sha256_injective same]
    rfl

theorem file_write_of_some {hash : String} {bytes : Bytes} (payload : String)
    (found : files.file hash = some bytes) : (files.write payload).file hash = some bytes := by
  rw [write]
  dsimp only
  split
  · rw [found, Option.some_or]
  · exact found

end BlobFiles

/-! ## The operations -/

/-- The containers that were made, the directory and a store over it. -/
structure BlobWorld (codec : BlobCodec) where
  containers : List MediaContainer
  files : BlobFiles codec
  store : BlobStore
  cached : ∀ hash bytes, store.cache.get hash = some bytes → files.file hash = some bytes

namespace BlobWorld

variable {codec : BlobCodec} (w : BlobWorld codec)

/-- What a reference refers to. -/
def look (ref : ℕ) : MediaContainer := w.containers[ref]?.getD { url := .null }

/-- A new store over the same directory. -/
def reopen (threshold maxCacheSize : ℕ) : BlobWorld codec :=
  { w with store := { threshold, maxCacheSize }, cached := nofun }

def readBlob (hash : String) : Option Bytes × BlobWorld codec :=
  match cached : w.store.cache.get hash with
  | some bytes =>
    (some bytes, { w with
      store := { w.store with cache := (w.store.cache.delete hash).set hash bytes }
      cached := by
        intro other bytes' found
        dsimp only at found
        by_cases same : other = hash
        · rw [same, OrderedMap.get_set_self] at found
          rw [same, ← found]
          exact w.cached hash bytes cached
        · rw [OrderedMap.get_set_ne _ _ same, OrderedMap.get_delete_ne _ same] at found
          exact w.cached other bytes' found })
  | none =>
    match read : w.files.file hash with
    | some payload =>
      (some payload, { w with
        store := w.store.setCache hash payload
        cached := by
          intro other bytes found
          rcases BlobStore.get_setCache found with ⟨rfl, rfl⟩ | old
          · exact read
          · exact w.cached other bytes old })
    | none => (none, w)

def writeBlob (mimeType base64Payload : String) : String × BlobWorld codec :=
  let hash := codec.sha256 base64Payload
  ("blobref:" ++ mimeType ++ ";" ++ hash, { w with
    files := w.files.write base64Payload
    store := w.store.setCache hash (codec.fromBase64 base64Payload)
    cached := by
      intro other bytes found
      rcases BlobStore.get_setCache found with ⟨rfl, rfl⟩ | old
      · exact w.files.file_write_self base64Payload
      · exact w.files.file_write_of_some base64Payload (w.cached other bytes old) })

def maybeOffloadString (value : String) : String × BlobWorld codec :=
  if isBlobRef value then (value, w)
  else
    match dataUriHeader value with
    | none => (value, w)
    | some (mimeType, payload) =>
      if utf16Length payload.toList < w.store.threshold then (value, w)
      else w.writeBlob mimeType payload

def rehydrateBlobRefUrl (url : String) : Option String × BlobWorld codec :=
  match blobRefParts url with
  | none => (none, w)
  | some (mimeType, hash) =>
    let (payload, w) := w.readBlob hash
    (payload.map fun payload => "data:" ++ mimeType ++ ";base64," ++ codec.toBase64 payload, w)

def create (w : BlobWorld codec) (container : MediaContainer) : BlobWorld codec :=
  { w with containers := w.containers ++ [container] }

/-- A container is copied with a new URL. -/
def offloadEntry (w : BlobWorld codec) :
    String × FieldValue ℕ → Option (String × FieldValue ℕ) × BlobWorld codec
  | (_, .plain _) => (none, w)
  | (key, .media ref) =>
    match (w.look ref).url with
    | .string url =>
      let (newUrl, w) := w.maybeOffloadString url
      if newUrl = url then (none, w)
      else
        (some (key, .media w.containers.length), w.create { w.look ref with url := .string newUrl })
    | _ => (none, w)

def offloadContentPart (w : BlobWorld codec) (part : PartEntries ℕ) :
    Option (PartEntries ℕ) × BlobWorld codec := mapChanged offloadEntry w part

def offloadParts (w : BlobWorld codec) (parts : List (PartEntries ℕ)) :
    Option (List (PartEntries ℕ)) × BlobWorld codec := mapChanged offloadContentPart w parts

def offload (w : BlobWorld codec) : MediaRecord ℕ → Option (MediaRecord ℕ) × BlobWorld codec
  | .turnPrompt input rest =>
    let (input, w) := w.offloadParts input
    (input.map (.turnPrompt · rest), w)
  | .turnSteer input rest =>
    let (input, w) := w.offloadParts input
    (input.map (.turnSteer · rest), w)
  | .appendMessage content message rest =>
    let (content, w) := w.offloadParts content
    (content.map (.appendMessage · message rest), w)
  | .toolResult (.inl _) _ _ _ => (none, w)
  | .toolResult (.inr output) result event rest =>
    let (output, w) := w.offloadParts output
    (output.map fun output => .toolResult (.inr output) result event rest, w)
  | .other _ => (none, w)

def setUrl (w : BlobWorld codec) (ref : ℕ) (url : String) : BlobWorld codec :=
  { w with containers := w.containers.set ref { w.look ref with url := .string url } }

def rehydrateContainer (w : BlobWorld codec) (ref : ℕ) : BlobWorld codec :=
  match (w.look ref).url with
  | .string url =>
    if isBlobRef url then
      let (newUrl, w) := w.rehydrateBlobRefUrl url
      w.setUrl ref (newUrl.getD missingMediaPlaceholder)
    else w
  | _ => w

def rehydrateEntry (w : BlobWorld codec) : String × FieldValue ℕ → BlobWorld codec
  | (_, .plain _) => w
  | (_, .media ref) => w.rehydrateContainer ref

def rehydrateContentPart (w : BlobWorld codec) (part : PartEntries ℕ) : BlobWorld codec :=
  part.foldl rehydrateEntry w

def rehydrateParts (w : BlobWorld codec) (parts : List (PartEntries ℕ)) : BlobWorld codec :=
  parts.foldl rehydrateContentPart w

def rehydrate (w : BlobWorld codec) : MediaRecord ℕ → BlobWorld codec
  | .turnPrompt input _ | .turnSteer input _ => w.rehydrateParts input
  | .appendMessage content _ _ => w.rehydrateParts content
  | .toolResult (.inr output) _ _ _ => w.rehydrateParts output
  | .toolResult (.inl _) _ _ _ | .other _ => w

end BlobWorld

end KimiCli
