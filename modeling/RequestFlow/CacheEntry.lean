import RequestFlow.HttpDate
import RequestFlow.Response

/-!
# Cached responses

What a request knows of an earlier response: its body, its headers and the validators by which a
server can tell whether it still holds.  `conditionalHeaders` asks the server, and `notModified`
answers from the entry when the server says that nothing changed; then the headers of the answer
come first and win, and cached headers of other names follow.

    conditionalHeaders e is empty ↔ ¬ hasValidators e, when it is no fault
                                                               (conditionalHeaders_ne_nil)
    r is the front of combine r c                              (prefix_combine)
    combine (combine r c) c = combine r c                      (combine_combine)
-/

namespace RequestFlow

structure CacheEntry where
  body : Bytes := []
  /-- The entity tag, empty when there is none. -/
  etag : Bytes := []
  /-- Nanoseconds since 1 January 1970; zero when unknown. -/
  lastModified : Int := 0
  headers : List Header := []
  deriving DecidableEq, Repr

namespace CacheEntry

/-! ## Algorithm -/

def hasValidators (e : CacheEntry) : Bool := !e.etag.isEmpty || e.lastModified != 0

def tagHeaders (e : CacheEntry) : Except Fault (List Header) :=
  if e.etag.isEmpty then .ok []
  else (Header.ofPair (text "If-None-Match") e.etag).map fun h => [h]

def dateHeaders (e : CacheEntry) : Except Fault (List Header) :=
  if e.lastModified = 0 then .ok []
  else (Header.ofPair (text "If-Modified-Since") (httpDate e.lastModified)).map fun h => [h]

/-- The headers that ask a server to confirm the entry: first by tag, then by date. -/
def conditionalHeaders : Option CacheEntry → Except Fault (List Header)
  | none => .ok []
  | some e =>
    match e.tagHeaders with
    | .error f => .error f
    | .ok tag => e.dateHeaders.map (tag ++ ·)

/-- The received headers, then the cached ones whose name was not received. -/
def combine (received cached : List Header) : List Header :=
  received ++ cached.filter fun h => (Header.find? received h.name).isNone

/-- The response that stands for the entry once a server has confirmed it. -/
def notModified (received : List Header) (entry : Option CacheEntry) (networkTime : Int) :
    Response :=
  match entry with
  | none => ⟨StatusCode.notModified, received, [], true, networkTime⟩
  | some e => ⟨StatusCode.notModified, combine received e.headers, e.body, true, networkTime⟩

/-! ## Lemmas -/

theorem conditionalHeaders_ne_nil {e : CacheEntry} {headers : List Header}
    (h : conditionalHeaders (some e) = .ok headers) :
    headers ≠ [] ↔ e.hasValidators = true := by
  simp only [conditionalHeaders, tagHeaders, dateHeaders] at h
  by_cases ht : e.etag = []
  · by_cases hd : e.lastModified = 0
    · simp [ht, hd, Except.map] at h
      subst h
      simp [hasValidators, ht, hd]
    · cases hp : Header.ofPair (text "If-Modified-Since") (httpDate e.lastModified) with
      | error f => simp [ht, hd, hp, Except.map] at h
      | ok g =>
        simp [ht, hd, hp, Except.map] at h
        subst h
        simp [hasValidators, ht, hd]
  · cases hq : Header.ofPair (text "If-None-Match") e.etag with
    | error f => simp [ht, hq, Except.map] at h
    | ok g =>
      by_cases hd : e.lastModified = 0
      · simp [ht, hd, hq, Except.map] at h
        subst h
        simp [hasValidators, ht]
      · cases hp : Header.ofPair (text "If-Modified-Since") (httpDate e.lastModified) with
        | error f => simp [ht, hd, hp, hq, Except.map] at h
        | ok g' =>
          simp [ht, hd, hp, hq, Except.map] at h
          subst h
          simp [hasValidators, ht]

theorem prefix_combine (received cached : List Header) : received <+: combine received cached :=
  List.prefix_append _ _

theorem find?_isNone_append (a b : List Header) (name : Bytes) :
    (Header.find? (a ++ b) name).isNone =
      ((Header.find? a name).isNone && (Header.find? b name).isNone) := by
  simp only [Header.find?, List.find?_append, Option.isNone_map]
  cases List.find? (fun h => Bytes.equalIgnoringCase h.name name) a <;> simp

theorem find?_isNone_iff (a : List Header) (name : Bytes) :
    (Header.find? a name).isNone = true ↔
      ∀ h ∈ a, Bytes.equalIgnoringCase h.name name = false := by
  simp [Header.find?]

theorem combine_combine (received cached : List Header) :
    combine (combine received cached) cached = combine received cached := by
  suffices h : (cached.filter fun h => (Header.find? (combine received cached) h.name).isNone) = [] by
    unfold combine at h ⊢
    rw [h, List.append_nil]
  rw [List.filter_eq_nil_iff]
  intro h hm hn
  unfold combine at hn
  rw [find?_isNone_append, Bool.and_eq_true] at hn
  have hc := (find?_isNone_iff _ _).1 hn.2 h (List.mem_filter.2 ⟨hm, hn.1⟩)
  have : Bytes.equalIgnoringCase h.name h.name = true := (Bytes.equalIgnoringCase_iff _ _).2 rfl
  rw [this] at hc
  cases hc

end CacheEntry

end RequestFlow
