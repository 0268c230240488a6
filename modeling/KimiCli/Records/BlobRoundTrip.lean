import KimiCli.Records.BlobStore

/-!
# Offloading and rehydrating

What `offload` and `rehydrate` do to a URL are two functions, the second of which takes the files
into account (`offloadUrl`, `resolve`); on what was written the second undoes the first.  All else
is bookkeeping: which containers are made and which are changed.
-/

namespace KimiCli

/-! ## What a record holds -/

def entryHolder : Holder fun μ => String × FieldValue μ where
  map f
    | (key, .plain value) => (key, .plain value)
    | (key, .media container) => (key, .media (f container))
  held
    | (_, .plain _) => []
    | (_, .media container) => [container]
  map_congr {_ _ _ _ x} same := by
    obtain ⟨key, _ | container⟩ := x
    · rfl
    · exact congrArg (fun m => (key, FieldValue.media m))
        (same container (List.mem_singleton_self _))
  map_map _ _ x := by
    obtain ⟨_, _ | _⟩ := x <;> rfl
  held_map _ x := by
    obtain ⟨_, _ | _⟩ := x <;> rfl

abbrev contentHolder : Holder fun μ => List (PartEntries μ) := entryHolder.list.list

def recordHolder : Holder MediaRecord where
  map f
    | .turnPrompt input rest => .turnPrompt (contentHolder.map f input) rest
    | .turnSteer input rest => .turnSteer (contentHolder.map f input) rest
    | .appendMessage content message rest =>
      .appendMessage (contentHolder.map f content) message rest
    | .toolResult (.inl output) result event rest => .toolResult (.inl output) result event rest
    | .toolResult (.inr output) result event rest =>
      .toolResult (.inr (contentHolder.map f output)) result event rest
    | .other rest => .other rest
  held
    | .turnPrompt content _ | .turnSteer content _ | .appendMessage content _ _
    | .toolResult (.inr content) _ _ _ => contentHolder.held content
    | .toolResult (.inl _) _ _ _ | .other _ => []
  map_congr {_ _ _ _ x} same := by
    cases x with
    | turnPrompt input rest =>
      exact congrArg (MediaRecord.turnPrompt · rest) (contentHolder.map_congr same)
    | turnSteer input rest =>
      exact congrArg (MediaRecord.turnSteer · rest) (contentHolder.map_congr same)
    | appendMessage content message rest =>
      exact congrArg (MediaRecord.appendMessage · message rest) (contentHolder.map_congr same)
    | toolResult output result event rest =>
      cases output with
      | inl => rfl
      | inr output =>
        exact congrArg (fun output => MediaRecord.toolResult (.inr output) result event rest)
          (contentHolder.map_congr same)
    | other => rfl
  map_map g f x := by
    cases x with
    | turnPrompt input rest =>
      exact congrArg (MediaRecord.turnPrompt · rest) (contentHolder.map_map g f _)
    | turnSteer input rest =>
      exact congrArg (MediaRecord.turnSteer · rest) (contentHolder.map_map g f _)
    | appendMessage content message rest =>
      exact congrArg (MediaRecord.appendMessage · message rest) (contentHolder.map_map g f _)
    | toolResult output result event rest =>
      cases output with
      | inl => rfl
      | inr output =>
        exact congrArg (fun output => MediaRecord.toolResult (.inr output) result event rest)
          (contentHolder.map_map g f _)
    | other => rfl
  held_map f x := by
    cases x with
    | turnPrompt _ _ | turnSteer _ _ | appendMessage _ _ _ => exact contentHolder.held_map f _
    | toolResult output _ _ _ =>
      cases output with
      | inl => rfl
      | inr _ => exact contentHolder.held_map f _
    | other => rfl

/-! ## URLs -/

variable {codec : BlobCodec}

variable {mimeType payload : String} {container : MediaContainer} {f : String → String}

theorem dataUriHeader_eq {value : String} (found : dataUriHeader value = some (mimeType, payload)) :
    value = "data:" ++ mimeType ++ ";base64," ++ payload ∧ ';' ∉ mimeType.toList := by
  rw [dataUriHeader] at found
  split at found
  case isTrue read =>
    obtain ⟨starts, -, ends⟩ := read
    obtain ⟨rest, isRest⟩ := List.isPrefixOf_iff_prefix.1 starts
    obtain ⟨tail, isTail⟩ := List.isPrefixOf_iff_prefix.1 ends
    have isDrop : value.toList.drop "data:".length = rest := by
      rw [← isRest]
      rfl
    rw [isDrop] at found isTail
    cases found
    refine ⟨String.toList_inj.1 ?_, fun mem => ?_⟩
    · have split : rest = List.takeWhile (· ≠ ';') rest ++ (";base64,".toList ++ tail) := by
        rw [isTail, List.takeWhile_append_dropWhile]
      have isPayload : (List.dropWhile (· ≠ ';') rest).drop ";base64,".length = tail := by
        rw [← isTail]
        rfl
      rw [isPayload, String.toList_append, String.toList_append, String.toList_append,
        String.toList_ofList (l := tail), String.toList_ofList (l := List.takeWhile _ _),
        List.append_assoc, List.append_assoc, ← split]
      exact isRest.symm
    · rw [String.toList_ofList] at mem
      exact of_decide_eq_true (List.mem_takeWhile_imp (p := fun c => decide (c ≠ ';')) mem) rfl
  case isFalse => cases found

theorem dataUriHeader_append (payload : String) (shown : mimeType ≠ "")
    (plain : ';' ∉ mimeType.toList) :
    dataUriHeader ("data:" ++ mimeType ++ ";base64," ++ payload) = some (mimeType, payload) := by
  have rest : ("data:" ++ mimeType ++ ";base64," ++ payload).toList =
      "data:".toList ++ (mimeType.toList ++ (";base64,".toList ++ payload.toList)) := by
    rw [String.toList_append, String.toList_append, String.toList_append, List.append_assoc,
      List.append_assoc]
  have before : ∀ c ∈ mimeType.toList, decide (c ≠ ';') = true := fun c mem =>
    decide_eq_true fun same => plain (same ▸ mem)
  have dropped : ("data:".toList ++ (mimeType.toList ++
      (";base64,".toList ++ payload.toList))).drop "data:".length =
        mimeType.toList ++ (";base64,".toList ++ payload.toList) := rfl
  have stop : (";base64,".toList ++ payload.toList).takeWhile (fun c => decide (c ≠ ';')) = [] ∧
      (";base64,".toList ++ payload.toList).dropWhile (fun c => decide (c ≠ ';')) =
        ";base64,".toList ++ payload.toList := ⟨rfl, rfl⟩
  have isMime : (mimeType.toList ++ (";base64,".toList ++ payload.toList)).takeWhile
      (fun c => decide (c ≠ ';')) = mimeType.toList := by
    rw [List.takeWhile_append_of_pos before, stop.1, List.append_nil]
  have isTail : (mimeType.toList ++ (";base64,".toList ++ payload.toList)).dropWhile
      (fun c => decide (c ≠ ';')) = ";base64,".toList ++ payload.toList := by
    rw [List.dropWhile_append_of_pos before, stop.2]
  rw [dataUriHeader, rest, dropped, isMime, isTail, if_pos
    ⟨List.isPrefixOf_iff_prefix.2 (List.prefix_append ..),
      fun none => shown (String.toList_eq_nil_iff.1 none),
      List.isPrefixOf_iff_prefix.2 (List.prefix_append ..)⟩, String.ofList_toList]
  have isPayload : (";base64,".toList ++ payload.toList).drop ";base64,".length =
    payload.toList := rfl
  rw [isPayload, String.ofList_toList]

theorem isBlobRef_append (rest : String) : isBlobRef ("blobref:" ++ rest) = true := by
  rw [isBlobRef, String.toList_append, List.isPrefixOf_iff_prefix]
  exact List.prefix_append ..

theorem isBlobRef_data (rest : String) : isBlobRef ("data:" ++ rest) = false := by
  rw [isBlobRef, String.toList_append]
  rfl

theorem blobRefParts_append {hash : String} (plain : ';' ∉ mimeType.toList) (some' : hash ≠ "") :
    blobRefParts ("blobref:" ++ mimeType ++ ";" ++ hash) = some (mimeType, hash) := by
  have rest : ("blobref:" ++ mimeType ++ ";" ++ hash).toList.drop "blobref:".length =
      mimeType.toList ++ ';' :: hash.toList := by
    rw [String.toList_append, String.toList_append, String.toList_append, List.append_assoc,
      List.append_assoc]
    rfl
  have before : ∀ c ∈ mimeType.toList, decide (c ≠ ';') = true := fun c mem =>
    decide_eq_true fun same => plain (same ▸ mem)
  rw [blobRefParts, rest, List.takeWhile_append_of_pos before, List.dropWhile_append_of_pos before]
  have inside : ';' ∈ mimeType.toList ++ ';' :: hash.toList :=
    List.mem_append_right _ List.mem_cons_self
  have shown : hash.toList ≠ [] := fun none => some' (String.toList_eq_nil_iff.1 none)
  simp [inside, shown]

/-- What `offload` makes of a URL. -/
def offloadUrl (codec : BlobCodec) (threshold : ℕ) (url : String) : String :=
  if isBlobRef url then url
  else
    match dataUriHeader url with
    | none => url
    | some (mimeType, payload) =>
      if utf16Length payload.toList < threshold then url
      else "blobref:" ++ mimeType ++ ";" ++ codec.sha256 payload

/-- What `rehydrate` makes of a URL. -/
def resolve (files : BlobFiles codec) (url : String) : String :=
  if isBlobRef url then
    ((blobRefParts url).bind fun ref => (files.file ref.2).map fun payload =>
      "data:" ++ ref.1 ++ ";base64," ++ codec.toBase64 payload).getD missingMediaPlaceholder
  else url

/-- A large data URI has its payload in the files. -/
def Stored (files : BlobFiles codec) (threshold : ℕ) (url : String) : Prop :=
  ∀ mimeType payload, dataUriHeader url = some (mimeType, payload) →
    threshold ≤ utf16Length payload.toList →
      files.file (codec.sha256 payload) = some (codec.fromBase64 payload)

/-- The payload of a data URI is what encoding its bytes gives. -/
def CanonicalPayload (codec : BlobCodec) (url : String) : Prop :=
  ∀ mimeType payload, dataUriHeader url = some (mimeType, payload) →
    codec.toBase64 (codec.fromBase64 payload) = payload

theorem isBlobRef_resolve (files : BlobFiles codec) (url : String) :
    isBlobRef (resolve files url) = false := by
  rw [resolve]
  split
  case isTrue =>
    cases found : (blobRefParts url).bind fun ref => (files.file ref.2).map fun payload =>
      "data:" ++ ref.1 ++ ";base64," ++ codec.toBase64 payload with
    | none => rfl
    | some url' =>
      obtain ⟨ref, _, isUrl⟩ := Option.bind_eq_some_iff.1 found
      obtain ⟨payload, _, rfl⟩ := Option.map_eq_some_iff.1 isUrl
      rw [Option.getD_some, String.append_assoc, String.append_assoc]
      exact isBlobRef_data _
  case isFalse other => exact Bool.eq_false_iff.2 other

theorem offloadUrl_large {threshold : ℕ} {url : String} (original : isBlobRef url = false)
    (header : dataUriHeader url = some (mimeType, payload))
    (large : threshold ≤ utf16Length payload.toList) :
    offloadUrl codec threshold url = "blobref:" ++ mimeType ++ ";" ++ codec.sha256 payload := by
  rw [offloadUrl, original, if_neg Bool.false_ne_true, header]
  exact if_neg (Nat.not_lt.2 large)

theorem resolve_of_original (files : BlobFiles codec) {url : String}
    (original : isBlobRef url = false) : resolve files url = url := by
  rw [resolve, original, if_neg Bool.false_ne_true]

theorem resolve_offloadUrl_large {files : BlobFiles codec} {threshold : ℕ} {url : String}
    (original : isBlobRef url = false) (header : dataUriHeader url = some (mimeType, payload))
    (large : threshold ≤ utf16Length payload.toList)
    (stored : files.file (codec.sha256 payload) = some (codec.fromBase64 payload)) :
    resolve files (offloadUrl codec threshold url) =
      "data:" ++ mimeType ++ ";base64," ++ codec.toBase64 (codec.fromBase64 payload) := by
  have isRef : isBlobRef ("blobref:" ++ mimeType ++ ";" ++ codec.sha256 payload) = true := by
    rw [String.append_assoc, String.append_assoc]
    exact isBlobRef_append _
  rw [offloadUrl_large original header large, resolve, isRef, if_pos rfl,
    blobRefParts_append (dataUriHeader_eq header).2 (codec.sha256_ne_empty payload),
    Option.bind_some, stored, Option.map_some, Option.getD_some]

theorem offloadUrl_small {threshold : ℕ} {url : String}
    (small : ∀ mimeType payload, dataUriHeader url = some (mimeType, payload) →
      utf16Length payload.toList < threshold) :
    offloadUrl codec threshold url = url := by
  rw [offloadUrl]
  split
  · rfl
  · split
    case h_1 => rfl
    case h_2 mimeType payload header => exact if_pos (small mimeType payload header)

/-- A data URI that is written to a file of its own. -/
def LargeDataUri (threshold : ℕ) (url : String) : Prop :=
  ∃ mimeType payload, dataUriHeader url = some (mimeType, payload) ∧
    threshold ≤ utf16Length payload.toList

/-- If it is written to a file, the file encodes to its payload. -/
def SurvivesFile (codec : BlobCodec) (threshold : ℕ) (url : String) : Prop :=
  ∀ mimeType payload, dataUriHeader url = some (mimeType, payload) →
    threshold ≤ utf16Length payload.toList → codec.toBase64 (codec.fromBase64 payload) = payload

theorem resolve_eq_self_iff (files : BlobFiles codec) (url : String) :
    resolve files url = url ↔ isBlobRef url = false := by
  refine ⟨fun same => ?_, resolve_of_original files⟩
  rw [← same]
  exact isBlobRef_resolve files url

theorem offloadUrl_eq_self_iff {threshold : ℕ} {url : String} (original : isBlobRef url = false) :
    offloadUrl codec threshold url = url ↔ ¬LargeDataUri threshold url := by
  constructor
  · rintro same ⟨mimeType, payload, header, large⟩
    have isRef := isBlobRef_append (mimeType ++ ";" ++ codec.sha256 payload)
    rw [← String.append_assoc, ← String.append_assoc, ← offloadUrl_large original header large,
      same, original] at isRef
    cases isRef
  · intro small
    exact offloadUrl_small fun mimeType payload header => Nat.not_le.1 fun large =>
      small ⟨mimeType, payload, header, large⟩

theorem resolve_offloadUrl_eq_iff {files : BlobFiles codec} {threshold : ℕ} {url : String}
    (stored : Stored files threshold url) :
    resolve files (offloadUrl codec threshold url) = url ↔
      isBlobRef url = false ∧ SurvivesFile codec threshold url := by
  cases original : isBlobRef url with
  | true =>
    have kept : offloadUrl codec threshold url = url := by rw [offloadUrl, original, if_pos rfl]
    rw [kept, resolve_eq_self_iff, original]
    exact ⟨fun no => (nomatch no), fun no => nomatch no.1⟩
  | false =>
    rw [eq_self, true_and]
    constructor
    · intro same mimeType payload header large
      rw [resolve_offloadUrl_large original header large (stored mimeType payload header large),
        (dataUriHeader_eq header).1] at same
      have := congrArg String.toList same
      rw [String.toList_append, String.toList_append (t := payload)] at this
      exact String.toList_inj.1 (List.append_cancel_left this)
    · intro survives
      by_cases large : LargeDataUri threshold url
      · obtain ⟨mimeType, payload, header, large⟩ := large
        rw [resolve_offloadUrl_large original header large (stored mimeType payload header large),
          survives mimeType payload header large, ← (dataUriHeader_eq header).1]
      · rw [(offloadUrl_eq_self_iff original).2 large, resolve_of_original files original]

theorem offloadUrl_cases (codec : BlobCodec) (threshold : ℕ) (url : String) :
    offloadUrl codec threshold url = url ∨ isBlobRef (offloadUrl codec threshold url) = true := by
  rw [offloadUrl]
  split
  · exact .inl rfl
  · split
    · exact .inl rfl
    · split
      · exact .inl rfl
      · rw [String.append_assoc, String.append_assoc]
        exact .inr (isBlobRef_append _)

theorem offloadUrl_offloadUrl (codec : BlobCodec) (threshold : ℕ) (url : String) :
    offloadUrl codec threshold (offloadUrl codec threshold url) =
      offloadUrl codec threshold url := by
  rcases offloadUrl_cases codec threshold url with kept | isRef
  · rw [kept, kept]
  · generalize offloadUrl codec threshold url = ref at isRef
    rw [offloadUrl, isRef, if_pos rfl]

/-- A container with its URL, where it is a string, replaced. -/
def onUrl (f : String → String) (container : MediaContainer) : MediaContainer :=
  match container.url with
  | .string url => { container with url := .string (f url) }
  | _ => container

theorem onUrl_string {url : String} (isUrl : container.url = .string url) :
    onUrl f container = { container with url := .string (f url) } := by
  rw [onUrl, isUrl]

theorem onUrl_other (noUrl : ∀ url, container.url ≠ .string url) :
    onUrl f container = container := by
  rw [onUrl]
  split
  case h_1 url isUrl => exact absurd isUrl (noUrl url)
  case h_2 => rfl

theorem onUrl_eq_self (same : ∀ url, container.url = .string url → f url = url) :
    onUrl f container = container := by
  by_cases isUrl : ∃ url, container.url = .string url
  · obtain ⟨url, isUrl⟩ := isUrl
    rw [onUrl_string isUrl, same url isUrl, ← isUrl]
  · exact onUrl_other fun url isUrl' => isUrl ⟨url, isUrl'⟩

theorem onUrl_onUrl (g f : String → String) (container : MediaContainer) :
    onUrl g (onUrl f container) = onUrl (g ∘ f) container := by
  by_cases isUrl : ∃ url, container.url = .string url
  · obtain ⟨url, isUrl⟩ := isUrl
    rw [onUrl_string isUrl, onUrl_string isUrl, onUrl_string rfl, Function.comp_apply]
  · have noUrl : ∀ url, container.url ≠ .string url := fun url isUrl' => isUrl ⟨url, isUrl'⟩
    rw [onUrl_other noUrl, onUrl_other noUrl, onUrl_other noUrl]

/-! ## Offloading -/

namespace BlobWorld

/-- Containers are added, and files. -/
structure Grows (w w' : BlobWorld codec) : Prop where
  containers : w.containers <+: w'.containers
  files : ∀ hash bytes, w.files.file hash = some bytes → w'.files.file hash = some bytes
  threshold : w'.store.threshold = w.store.threshold

variable {w w₁ w₂ : BlobWorld codec}

theorem Grows.refl (w : BlobWorld codec) : Grows w w :=
  ⟨List.prefix_rfl, fun _ _ found => found, rfl⟩

theorem Grows.trans (first : Grows w w₁) (second : Grows w₁ w₂) : Grows w w₂ where
  containers := first.containers.trans second.containers
  files hash bytes found := second.files hash bytes (first.files hash bytes found)
  threshold := second.threshold.trans first.threshold

variable {ref : ℕ}

theorem Grows.made (grows : Grows w w₁) (made : ref < w.containers.length) :
    ref < w₁.containers.length := Nat.lt_of_lt_of_le made grows.containers.length_le

theorem Grows.look (grows : Grows w w₁) (made : ref < w.containers.length) :
    w₁.look ref = w.look ref := by
  obtain ⟨added, same⟩ := grows.containers
  rw [BlobWorld.look, BlobWorld.look, ← same, List.getElem?_append_left made]

theorem Grows.stored (grows : Grows w w₁) {threshold : ℕ} {url : String}
    (stored : Stored w.files threshold url) : Stored w₁.files threshold url :=
  fun mimeType payload found large => grows.files _ _ (stored mimeType payload found large)

structure OffloadedUrl (w : BlobWorld codec) (url newUrl : String) (w' : BlobWorld codec) :
    Prop where
  grows : Grows w w'
  containers : w'.containers = w.containers
  newUrl : newUrl = offloadUrl codec w.store.threshold url
  stored : isBlobRef url = false → Stored w'.files w.store.threshold url

theorem offloadedUrl_maybeOffloadString (w : BlobWorld codec) (url : String) :
    OffloadedUrl w url (w.maybeOffloadString url).1 (w.maybeOffloadString url).2 := by
  rw [maybeOffloadString]
  split
  case isTrue isRef =>
    refine ⟨.refl w, rfl, ?_, fun original => absurd isRef (by rw [original]; nofun)⟩
    rw [offloadUrl, if_pos isRef]
  case isFalse other =>
    split
    case h_1 noHeader =>
      refine ⟨.refl w, rfl, ?_, fun _ _ _ found => absurd found (by rw [noHeader]; nofun)⟩
      rw [offloadUrl, if_neg other, noHeader]
    case h_2 mimeType payload header =>
      split
      case isTrue small =>
        refine ⟨.refl w, rfl, ?_, fun _ _ payload' found large => ?_⟩
        · rw [offloadUrl, if_neg other, header]
          exact (if_pos small).symm
        · rw [header] at found
          cases found
          exact absurd large (Nat.not_le.2 small)
      case isFalse large =>
        refine ⟨⟨List.prefix_rfl, fun _ _ => w.files.file_write_of_some payload,
          w.store.threshold_setCache _ _⟩, rfl, ?_, fun _ _ payload' found _ => ?_⟩
        · rw [offloadUrl, if_neg other, header]
          exact (if_neg large).symm
        · rw [header] at found
          cases found
          exact w.files.file_write_self payload

/-- What offloading a value `x` gives: `result`, or `x` itself. -/
structure Offloaded {F : Type → Type} (H : Holder F) (w : BlobWorld codec) (x : F ℕ)
    (result : Option (F ℕ)) (w' : BlobWorld codec) : Prop where
  grows : Grows w w'
  made : ∀ ref ∈ H.held (result.getD x), ref < w'.containers.length
  view : H.map w'.look (result.getD x) =
    H.map (onUrl (offloadUrl codec w.store.threshold) ∘ w.look) x
  stored : ∀ ref ∈ H.held x, ∀ url, (w.look ref).url = .string url → isBlobRef url = false →
    Stored w'.files w.store.threshold url
  same : (∀ ref ∈ H.held x,
    onUrl (offloadUrl codec w.store.threshold) (w.look ref) = w.look ref) → result = none

theorem look_create_self (w : BlobWorld codec) (container : MediaContainer) :
    (w.create container).look w.containers.length = container := by
  rw [look, create, List.getElem?_concat_length, Option.getD_some]

theorem grows_create (w : BlobWorld codec) (container : MediaContainer) :
    Grows w (w.create container) := ⟨List.prefix_append _ _, fun _ _ found => found, rfl⟩

theorem offloaded_entry (w : BlobWorld codec) (entry : String × FieldValue ℕ)
    (made : ∀ ref ∈ entryHolder.held entry, ref < w.containers.length) :
    Offloaded entryHolder w entry (w.offloadEntry entry).1 (w.offloadEntry entry).2 := by
  obtain ⟨key, value | ref⟩ := entry
  · exact ⟨.refl w, made, rfl, nofun, fun _ => rfl⟩
  · have refMade : ref < w.containers.length := made ref (List.mem_singleton_self _)
    rw [offloadEntry]
    split
    case h_1 url isUrl =>
      have spec := w.offloadedUrl_maybeOffloadString url
      revert spec
      generalize w.maybeOffloadString url = step
      obtain ⟨newUrl, w₁⟩ := step
      intro spec
      have kept : w₁.look ref = w.look ref := spec.grows.look refMade
      have isNew : onUrl (offloadUrl codec w.store.threshold) (w.look ref) =
          { w.look ref with url := .string newUrl } := by
        rw [onUrl_string isUrl, ← spec.newUrl]
      have stored : ∀ ref' ∈ entryHolder.held (key, FieldValue.media ref), ∀ url',
          (w.look ref').url = .string url' → isBlobRef url' = false →
            Stored w₁.files w.store.threshold url' := by
        intro ref' mem url' isUrl' original
        obtain rfl := List.mem_singleton.1 mem
        obtain rfl := Json.string.inj (isUrl.symm.trans isUrl')
        exact spec.stored original
      dsimp only
      split
      case isTrue same =>
        refine ⟨spec.grows, fun ref' mem => spec.grows.made (made ref' mem), ?_, stored,
          fun _ => rfl⟩
        refine congrArg (fun m => (key, FieldValue.media m)) ?_
        rw [Function.comp_apply, isNew, kept, same, ← isUrl]
      case isFalse changed =>
        refine ⟨spec.grows.trans (grows_create ..), fun ref' mem => ?_, ?_, stored,
          fun unchanged => ?_⟩
        · obtain rfl := List.mem_singleton.1 mem
          rw [create, List.length_append]
          exact Nat.lt_succ_self _
        · refine congrArg (fun m => (key, FieldValue.media m)) ?_
          rw [look_create_self, kept, Function.comp_apply, isNew]
        · have same := unchanged ref (List.mem_singleton_self _)
          rw [isNew] at same
          have := congrArg MediaContainer.url same
          exact absurd (Json.string.inj (this.trans isUrl)) changed
    case h_2 noUrl =>
      have same : onUrl (offloadUrl codec w.store.threshold) (w.look ref) = w.look ref :=
        onUrl_other noUrl
      refine ⟨.refl w, made, congrArg (fun m => (key, FieldValue.media m)) same.symm,
        fun ref' mem url isUrl => ?_, fun _ => rfl⟩
      obtain rfl := List.mem_singleton.1 mem
      exact absurd isUrl (noUrl url)

theorem Offloaded.list {F : Type → Type} {H : Holder F}
    {f : BlobWorld codec → F ℕ → Option (F ℕ) × BlobWorld codec}
    (spec : ∀ w x, (∀ ref ∈ H.held x, ref < w.containers.length) →
      Offloaded H w x (f w x).1 (f w x).2) (xs : List (F ℕ)) (w : BlobWorld codec)
    (made : ∀ ref ∈ H.list.held xs, ref < w.containers.length) :
    Offloaded H.list w xs (mapChanged f w xs).1 (mapChanged f w xs).2 := by
  induction xs generalizing w with
  | nil => exact ⟨.refl w, nofun, rfl, nofun, fun _ => rfl⟩
  | cons x xs ih =>
    rw [H.held_list_cons, List.forall_mem_append] at made
    have first := spec w x made.1
    have rest := ih (f w x).2 fun ref mem => first.grows.made (made.2 ref mem)
    have state : (mapChanged f w (x :: xs)).2 = (mapChanged f (f w x).2 xs).2 := rfl
    have looks : ∀ ref ∈ H.list.held xs, (f w x).2.look ref = w.look ref :=
      fun ref mem => first.grows.look (made.2 ref mem)
    rw [state]
    refine ⟨first.grows.trans rest.grows, ?_, ?_, ?_, fun unchanged => ?_⟩
    · rw [mapChanged_getD, H.held_list_cons, List.forall_mem_append]
      exact ⟨fun ref mem => rest.grows.made (first.made ref mem), rest.made⟩
    · rw [mapChanged_getD]
      refine congrArg₂ List.cons ?_ (rest.view.trans ?_)
      · rw [← first.view]
        exact H.map_congr fun ref mem => rest.grows.look (first.made ref mem)
      · refine H.list.map_congr fun ref mem => ?_
        rw [Function.comp_apply, Function.comp_apply, looks ref mem, first.grows.threshold]
    · rw [H.held_list_cons, List.forall_mem_append]
      refine ⟨fun ref mem url isUrl original =>
        rest.grows.stored (first.stored ref mem url isUrl original),
        fun ref mem url isUrl original => ?_⟩
      rw [← first.grows.threshold]
      exact rest.stored ref mem url (by rw [looks ref mem, isUrl]) original
    · rw [H.held_list_cons, List.forall_mem_append] at unchanged
      refine mapChanged_eq_none (first.same unchanged.1) (rest.same fun ref mem => ?_)
      rw [looks ref mem, first.grows.threshold]
      exact unchanged.2 ref mem

theorem offloaded_contentPart (w : BlobWorld codec) (part : PartEntries ℕ)
    (made : ∀ ref ∈ entryHolder.list.held part, ref < w.containers.length) :
    Offloaded entryHolder.list w part (w.offloadContentPart part).1 (w.offloadContentPart part).2 :=
  Offloaded.list (H := entryHolder) (f := offloadEntry) offloaded_entry part w made

theorem offloaded_parts (w : BlobWorld codec) (parts : List (PartEntries ℕ))
    (made : ∀ ref ∈ contentHolder.held parts, ref < w.containers.length) :
    Offloaded contentHolder w parts (w.offloadParts parts).1 (w.offloadParts parts).2 :=
  Offloaded.list offloaded_contentPart parts w made

theorem Offloaded.record {parts : List (PartEntries ℕ)} {result : Option (List (PartEntries ℕ))}
    (spec : Offloaded contentHolder w parts result w₁)
    (build : ∀ {μ : Type}, List (PartEntries μ) → MediaRecord μ)
    (held : ∀ {μ : Type} (parts : List (PartEntries μ)),
      recordHolder.held (build parts) = contentHolder.held parts)
    (map : ∀ {μ ν : Type} (f : μ → ν) (parts : List (PartEntries μ)),
      recordHolder.map f (build parts) = build (contentHolder.map f parts)) :
    Offloaded recordHolder w (build parts) (result.map build) w₁ := by
  have value : (result.map build).getD (build parts) = build (result.getD parts) := by
    cases result <;> rfl
  refine ⟨spec.grows, ?_, ?_, ?_, fun unchanged => ?_⟩
  · rw [value, held]
    exact spec.made
  · rw [value, map, map, spec.view]
  · rw [held]
    exact spec.stored
  · rw [held] at unchanged
    rw [spec.same unchanged, Option.map_none]

theorem offloaded_offload (w : BlobWorld codec) (record : MediaRecord ℕ)
    (made : ∀ ref ∈ recordHolder.held record, ref < w.containers.length) :
    Offloaded recordHolder w record (w.offload record).1 (w.offload record).2 := by
  cases record with
  | turnPrompt input rest =>
    exact (w.offloaded_parts input made).record (.turnPrompt · rest) (fun _ => rfl) fun _ _ => rfl
  | turnSteer input rest =>
    exact (w.offloaded_parts input made).record (.turnSteer · rest) (fun _ => rfl) fun _ _ => rfl
  | appendMessage content message rest =>
    exact (w.offloaded_parts content made).record (.appendMessage · message rest) (fun _ => rfl)
      fun _ _ => rfl
  | toolResult output result event rest =>
    cases output with
    | inl => exact ⟨.refl w, nofun, rfl, nofun, fun _ => rfl⟩
    | inr output =>
      exact (w.offloaded_parts output made).record
        (fun output => .toolResult (.inr output) result event rest) (fun _ => rfl) fun _ _ => rfl
  | other => exact ⟨.refl w, nofun, rfl, nofun, fun _ => rfl⟩

/-! ## Rehydrating -/

theorem readBlob_fst (w : BlobWorld codec) (hash : String) :
    (w.readBlob hash).1 = w.files.file hash := by
  rw [readBlob]
  split
  case h_1 bytes cached => exact (w.cached hash bytes cached).symm
  case h_2 =>
    split
    case h_1 payload read => exact read.symm
    case h_2 missing => exact missing.symm

theorem readBlob_snd (w : BlobWorld codec) (hash : String) :
    (w.readBlob hash).2.files = w.files ∧ (w.readBlob hash).2.containers = w.containers := by
  rw [readBlob]
  split
  · exact ⟨rfl, rfl⟩
  · split <;> exact ⟨rfl, rfl⟩

theorem rehydrateBlobRefUrl_fst (w : BlobWorld codec) {url : String}
    (isRef : isBlobRef url = true) :
    (w.rehydrateBlobRefUrl url).1.getD missingMediaPlaceholder = resolve w.files url := by
  rw [resolve, if_pos isRef, rehydrateBlobRefUrl]
  cases blobRefParts url with
  | none => rfl
  | some =>
    dsimp only
    rw [readBlob_fst, Option.bind_some]

theorem rehydrateBlobRefUrl_snd (w : BlobWorld codec) (url : String) :
    (w.rehydrateBlobRefUrl url).2.files = w.files ∧
      (w.rehydrateBlobRefUrl url).2.containers = w.containers := by
  rw [rehydrateBlobRefUrl]
  cases blobRefParts url with
  | none => exact ⟨rfl, rfl⟩
  | some ref => exact w.readBlob_snd ref.2

/-- The containers at `refs` have their URLs resolved. -/
structure Rehydrated (w : BlobWorld codec) (refs : List ℕ) (w' : BlobWorld codec) : Prop where
  files : w'.files = w.files
  length : w'.containers.length = w.containers.length
  look : ∀ ref, w'.look ref =
    if ref ∈ refs then onUrl (resolve w.files) (w.look ref) else w.look ref

theorem look_setUrl (made : ref < w.containers.length) (url : String) (other : ℕ) :
    (w.setUrl ref url).look other =
      if other = ref then { w.look ref with url := .string url } else w.look other := by
  rw [look, setUrl]
  by_cases same : other = ref
  · subst same
    rw [if_pos rfl, List.getElem?_set_self made, Option.getD_some]
  · rw [if_neg same, List.getElem?_set_ne (Ne.symm same), look]

theorem rehydrated_container (made : ref < w.containers.length) :
    Rehydrated w [ref] (w.rehydrateContainer ref) := by
  have unchanged (same : onUrl (resolve w.files) (w.look ref) = w.look ref) :
      Rehydrated w [ref] w := by
    refine ⟨rfl, rfl, fun other => ?_⟩
    split
    case isTrue mem => rw [List.mem_singleton.1 mem, same]
    case isFalse => rfl
  rw [rehydrateContainer]
  split
  case h_1 url isUrl =>
    split
    case isTrue isRef =>
      dsimp only
      rw [w.rehydrateBlobRefUrl_fst isRef]
      obtain ⟨files, containers⟩ := w.rehydrateBlobRefUrl_snd url
      have looks (other : ℕ) : (w.rehydrateBlobRefUrl url).2.look other = w.look other := by
        rw [look, containers, look]
      refine ⟨files, ?_, fun other => ?_⟩
      · rw [setUrl, List.length_set, containers]
      · rw [look_setUrl (by rw [containers]; exact made), looks, looks]
        by_cases same : other = ref
        · rw [if_pos same, if_pos (List.mem_singleton.2 same), same, onUrl_string isUrl]
        · rw [if_neg same, if_neg fun mem => same (List.mem_singleton.1 mem)]
    case isFalse other =>
      refine unchanged (onUrl_eq_self fun url' isUrl' => ?_)
      obtain rfl := Json.string.inj (isUrl.symm.trans isUrl')
      rw [resolve, if_neg other]
  case h_2 noUrl => exact unchanged (onUrl_other noUrl)

theorem onUrl_resolve_twice (files : BlobFiles codec) (container : MediaContainer) :
    onUrl (resolve files) (onUrl (resolve files) container) = onUrl (resolve files) container := by
  rw [onUrl_onUrl]
  refine congrArg (onUrl · container) (funext fun url => ?_)
  rw [Function.comp_apply, resolve, isBlobRef_resolve, if_neg Bool.false_ne_true]

theorem rehydrated_containers (refs : List ℕ) (w : BlobWorld codec)
    (made : ∀ ref ∈ refs, ref < w.containers.length) :
    Rehydrated w refs (refs.foldl rehydrateContainer w) := by
  induction refs generalizing w with
  | nil => exact ⟨rfl, rfl, fun _ => rfl⟩
  | cons ref refs ih =>
    have first := rehydrated_container (made ref List.mem_cons_self)
    have rest := ih (w.rehydrateContainer ref) fun ref' mem => by
      rw [first.length]
      exact made ref' (List.mem_cons_of_mem _ mem)
    refine ⟨rest.files.trans first.files, rest.length.trans first.length, fun other => ?_⟩
    rw [List.foldl_cons, rest.look, first.look, first.files]
    by_cases here : other = ref
    · rw [if_pos (List.mem_singleton.2 here), if_pos (List.mem_cons.2 (.inl here)),
        onUrl_resolve_twice, ite_self]
    · rw [if_neg fun mem => here (List.mem_singleton.1 mem)]
      by_cases later : other ∈ refs
      · rw [if_pos later, if_pos (List.mem_cons_of_mem _ later)]
      · rw [if_neg later, if_neg fun mem => (List.mem_cons.1 mem).elim here later]

theorem rehydrateParts_eq (w : BlobWorld codec) (parts : List (PartEntries ℕ)) :
    w.rehydrateParts parts = (contentHolder.held parts).foldl rehydrateContainer w := by
  have entry : rehydrateEntry =
      fun (w : BlobWorld codec) entry => (entryHolder.held entry).foldl rehydrateContainer w := by
    funext w entry
    obtain ⟨key, value | ref⟩ := entry <;> rfl
  have part : rehydrateContentPart =
      fun (w : BlobWorld codec) part =>
        (entryHolder.list.held part).foldl rehydrateContainer w := by
    funext w part
    rw [rehydrateContentPart, entry]
    exact (List.foldl_flatMap ..).symm
  rw [rehydrateParts, part]
  exact (List.foldl_flatMap ..).symm

theorem rehydrated_rehydrate (w : BlobWorld codec) (record : MediaRecord ℕ)
    (made : ∀ ref ∈ recordHolder.held record, ref < w.containers.length) :
    Rehydrated w (recordHolder.held record) (w.rehydrate record) := by
  have eq : w.rehydrate record = (recordHolder.held record).foldl rehydrateContainer w := by
    cases record with
    | turnPrompt _ _ | turnSteer _ _ | appendMessage _ _ _ => exact w.rehydrateParts_eq _
    | toolResult output _ _ _ =>
      cases output with
      | inl => rfl
      | inr _ => exact w.rehydrateParts_eq _
    | other => rfl
  rw [eq]
  exact rehydrated_containers _ w made

/-! ## The round trip -/

/-- The URLs in what a record holds. -/
def HasUrl (w : BlobWorld codec) (record : MediaRecord ℕ) (url : String) : Prop :=
  ∃ ref ∈ recordHolder.held record, (w.look ref).url = .string url

/-- What a record says. -/
def view (w : BlobWorld codec) (record : MediaRecord ℕ) : MediaRecord MediaContainer :=
  recordHolder.map w.look record

variable {record result : MediaRecord ℕ}

theorem Rehydrated.view {refs : List ℕ} (rehydrated : Rehydrated w refs w₁)
    (all : refs = recordHolder.held record) :
    w₁.view record = recordHolder.map (onUrl (resolve w.files)) (w.view record) := by
  rw [BlobWorld.view, BlobWorld.view, recordHolder.map_map]
  refine recordHolder.map_congr fun ref mem => ?_
  rw [rehydrated.look, if_pos (all ▸ mem), Function.comp_apply]

/-- Each container of the result is one of the record, with its URL offloaded. -/
theorem Offloaded.exists_held {next : Option (MediaRecord ℕ)}
    (spec : Offloaded recordHolder w record next w₁)
    (mem : ref ∈ recordHolder.held (next.getD record)) :
    ∃ old ∈ recordHolder.held record,
      w₁.look ref = onUrl (offloadUrl codec w.store.threshold) (w.look old) := by
  have views := congrArg recordHolder.held spec.view
  rw [recordHolder.held_map, recordHolder.held_map] at views
  have seen : w₁.look ref ∈ (recordHolder.held (next.getD record)).map w₁.look :=
    List.mem_map_of_mem mem
  rw [views] at seen
  obtain ⟨old, held, same⟩ := List.mem_map.1 seen
  exact ⟨old, held, same.symm⟩

theorem resolve_view {files : BlobFiles codec} (threshold : ℕ)
    (originals : ∀ url, w.HasUrl record url → isBlobRef url = false ∧ CanonicalPayload codec url)
    (stored : ∀ ref ∈ recordHolder.held record, ∀ url, (w.look ref).url = .string url →
      isBlobRef url = false → Stored files threshold url) :
    recordHolder.map (onUrl (resolve files))
        (recordHolder.map (onUrl (offloadUrl codec threshold) ∘ w.look) record) =
      w.view record := by
  rw [recordHolder.map_map, view]
  refine recordHolder.map_congr fun ref mem => ?_
  rw [Function.comp_apply, Function.comp_apply, onUrl_onUrl]
  refine onUrl_eq_self fun url isUrl => ?_
  obtain ⟨original, canonical⟩ := originals url ⟨ref, mem, isUrl⟩
  exact (resolve_offloadUrl_eq_iff (stored ref mem url isUrl original)).2
    ⟨original, fun mimeType payload header _ => canonical mimeType payload header⟩

/-- Offloading leaves a record as it is and gives itself when repeated, a record without large
data URIs is its own result, and rehydrating a result gives what the record says, with the same
store or a new one. -/
theorem rehydrate_offload (w : BlobWorld codec) (record : MediaRecord ℕ)
    (made : ∀ ref ∈ recordHolder.held record, ref < w.containers.length) :
    let w₁ := (w.offload record).2
    let result := (w.offload record).1.getD record
    w₁.view record = w.view record ∧ (w₁.offload result).1 = none ∧
      ((∀ url, w.HasUrl record url → ∀ mimeType payload,
          dataUriHeader url = some (mimeType, payload) →
            utf16Length payload.toList < w.store.threshold) →
        (w.offload record).1 = none) ∧
      ((∀ url, w.HasUrl record url → isBlobRef url = false ∧ CanonicalPayload codec url) →
        (w₁.rehydrate result).view result = w.view record ∧
          ∀ threshold maxCacheSize,
            ((w₁.reopen threshold maxCacheSize).rehydrate result).view result = w.view record) := by
  have spec := w.offloaded_offload record made
  refine ⟨recordHolder.map_congr fun ref mem => spec.grows.look (made ref mem), ?_, ?_, ?_⟩
  · refine ((w.offload record).2.offloaded_offload _ spec.made).same fun ref mem => ?_
    obtain ⟨old, _, same⟩ := spec.exists_held mem
    rw [same, spec.grows.threshold, onUrl_onUrl]
    exact congrArg (onUrl · _) (funext fun url => offloadUrl_offloadUrl ..)
  · intro small
    refine spec.same fun ref mem => onUrl_eq_self fun url isUrl => ?_
    exact offloadUrl_small fun mimeType payload => small url ⟨ref, mem, isUrl⟩ mimeType payload
  · intro originals
    have resolved := resolve_view w.store.threshold originals spec.stored
    rw [← spec.view] at resolved
    refine ⟨((rehydrated_rehydrate _ _ spec.made).view rfl).trans resolved, fun _ _ => ?_⟩
    exact ((rehydrated_rehydrate (w := (w.offload record).2.reopen _ _) _ spec.made).view rfl).trans
      resolved

/-- A codec as it is on one payload. -/
def oneBlobCodec (payload hash : String) (bytes : Bytes) (shown : ∀ rest, hash ≠ "x" ++ rest)
    (nonempty : hash ≠ "") : BlobCodec where
  sha256 other := if other = payload then hash else "x" ++ other
  fromBase64 other := if other = payload then bytes else []
  toBase64 other := if other = bytes then payload else ""
  sha256_injective other other' same := by
    dsimp only at same
    split at same
    case isTrue here =>
      split at same
      · rwa [here, eq_comm]
      · exact absurd same (shown _)
    case isFalse =>
      split at same
      · exact absurd same.symm (shown _)
      · have := congrArg String.toList same
        rw [String.toList_append, String.toList_append] at this
        exact String.toList_inj.1 (List.append_cancel_left this)
  sha256_ne_empty other := by
    split
    · exact nonempty
    · intro eq
      have := congrArg String.toList eq
      rw [String.toList_append] at this
      exact absurd this (List.cons_ne_nil _ _)

theorem oneBlobCodec_sha256 {payload hash : String} {bytes : Bytes}
    (shown : ∀ rest, hash ≠ "x" ++ rest) (nonempty : hash ≠ "") :
    (oneBlobCodec payload hash bytes shown nonempty).sha256 payload = hash := if_pos rfl

def pixelCodec : BlobCodec :=
  oneBlobCodec "AAAA" "63c1dd951ffedf6f7fd968ad4efa39b8ed584f162f46e715114ee184f8de9201" [0, 0, 0]
    (fun rest eq => by
      have := congrArg String.toList eq
      rw [String.toList_append] at this
      exact absurd (List.cons.inj this).1 (by decide))
    (by decide)

def pixelWorld : BlobWorld pixelCodec where
  containers := [{ url := .string "data:image/png;base64,AAAA" }]
  files := .empty
  store := { threshold := 4 }
  cached := nofun

def pixelPrompt : MediaRecord ℕ :=
  .turnPrompt [[("type", .plain (.string "image_url")), ("imageUrl", .media 0)]] []

theorem rehydrate_offload_pixel :
    (pixelWorld.offload pixelPrompt).1.isSome ∧
      ((pixelWorld.offload pixelPrompt).2.rehydrate
        ((pixelWorld.offload pixelPrompt).1.getD pixelPrompt)).view
          ((pixelWorld.offload pixelPrompt).1.getD pixelPrompt) = pixelWorld.view pixelPrompt := by
  refine ⟨by decide, ((pixelWorld.rehydrate_offload pixelPrompt ?_).2.2.2 ?_).1⟩
  · intro ref mem
    obtain rfl := List.mem_singleton.1 mem
    exact Nat.zero_lt_one
  · rintro url ⟨ref, mem, isUrl⟩
    obtain rfl := List.mem_singleton.1 mem
    obtain rfl := Json.string.inj isUrl
    refine ⟨by decide, fun mimeType payload header => ?_⟩
    have : dataUriHeader "data:image/png;base64,AAAA" = some ("image/png", "AAAA") := by decide
    rw [this] at header
    cases header
    decide

end BlobWorld

end KimiCli
