import GrpcAsr.Asr.RemoteOptions

/-!
# The grammar of remote endpoints

What the validation of remote options accepts, as a grammar over the bytes of the URL and the
names and values of the headers. The parts of an accepted URL are unique.
-/

namespace GrpcAsr.Asr

open Media (Bytes ascii)
open StdText

set_option autoImplicit false

/-- An address in brackets, or a name without a colon. -/
def HostText (host : Bytes) : Prop :=
  (∃ address, host = 91 :: address ++ [93] ∧ address ≠ [] ∧ 93 ∉ address) ∨
    (host ≠ [] ∧ 58 ∉ host ∧ host.head? ≠ some 91)

def PortNumber (digits : Bytes) : Prop :=
  1 ≤ digits.length ∧ digits.length ≤ 5 ∧ digits.all isDigit = true ∧
    1 ≤ readNat digits ∧ readNat digits ≤ 65535

def PortText (port : Bytes) : Prop := port = [] ∨ ∃ digits, port = 58 :: digits ∧ PortNumber digits

structure Endpoint where
  scheme : Bytes
  host : Bytes
  port : Bytes
  rest : Bytes

def Endpoint.text (e : Endpoint) : Bytes := e.scheme ++ (e.host ++ e.port ++ e.rest)

structure Endpoint.Valid (e : Endpoint) : Prop where
  scheme : e.scheme.map lower = ascii "http://" ∨ e.scheme.map lower = ascii "https://"
  host : HostText e.host
  port : PortText e.port
  rest : e.rest = [] ∨ ∃ c tail, e.rest = c :: tail ∧ (c = 47 ∨ c = 63 ∨ c = 35)
  authority : ∀ c ∈ e.host ++ e.port, c ≠ 47 ∧ c ≠ 63 ∧ c ≠ 35 ∧ c ≠ 64
  unspaced : ∀ c ∈ e.text, c ≠ 32 ∧ c ≠ 9 ∧ c ≠ 13 ∧ c ≠ 10

/-- The characters of a token: letters, digits and fifteen marks. -/
def TokenChar (c : UInt8) : Prop :=
  (65 ≤ c ∧ c ≤ 90) ∨ (97 ≤ c ∧ c ≤ 122) ∨ (48 ≤ c ∧ c ≤ 57) ∨
    c ∈ [33, 35, 36, 37, 38, 39, 42, 43, 45, 46, 94, 95, 96, 124, 126]

structure HeadersValid (headers : List (Bytes × Bytes)) : Prop where
  tokens : ∀ header ∈ headers, header.1 ≠ [] ∧ ∀ c ∈ header.1, TokenChar c
  distinct : headers.Pairwise fun a b => a.1.map lower ≠ b.1.map lower
  values : ∀ header ∈ headers, 13 ∉ header.2 ∧ 10 ∉ header.2

theorem startsWithCi_iff {text start : Bytes} : startsWithCi text start = true ↔
    ∃ front back, text = front ++ back ∧ front.map lower = start := by
  rw [startsWithCi, Bool.and_eq_true, decide_eq_true_eq, beq_iff_eq]
  constructor
  · rintro ⟨-, hFront⟩
    exact ⟨_, _, (List.take_append_drop start.length text).symm, hFront⟩
  · rintro ⟨front, back, rfl, rfl⟩
    rw [List.length_map, List.length_append]
    exact ⟨Nat.le_add_right _ _, by rw [List.take_left]⟩

theorem portRejected_cases (port : Bytes) :
    (portRejected port = .ok false ∧ (port = [] ∨ PortNumber port)) ∨
      (portRejected port = .ok true ∧ port ≠ [] ∧ ¬PortNumber port) := by
  unfold portRejected
  by_cases hNone : port = []
  · exact Or.inl ⟨if_pos hNone, Or.inl hNone⟩
  · rw [if_neg hNone]
    by_cases hForm : (5 < port.length || !port.all isDigit) = true
    · rw [if_pos hForm]
      refine Or.inr ⟨rfl, hNone, fun hNumber => ?_⟩
      simp only [Bool.or_eq_true, decide_eq_true_eq, Bool.not_eq_true'] at hForm
      rcases hForm with hLong | hOther
      · exact absurd hNumber.2.1 (Nat.not_le.mpr hLong)
      · exact absurd hNumber.2.2.1 (by rw [hOther]; decide)
    · rw [if_neg hForm]
      simp only [Bool.or_eq_true, decide_eq_true_eq, Bool.not_eq_true', not_or, Nat.not_lt,
        Bool.not_eq_false] at hForm
      obtain ⟨hLength, hDigits⟩ := hForm
      have hSmall : readNat port < 10 ^ 5 :=
        Nat.lt_of_lt_of_le (readNat_lt hDigits) (Nat.pow_le_pow_right (by decide) hLength)
      have hRead := stoi_digits hDigits hNone (by omega)
      have hSome : 1 ≤ port.length := List.length_pos_iff.mpr hNone
      simp only [hRead, bind, Except.bind, pure, Except.pure]
      by_cases hZero : (readNat port : Int) = 0
      · rw [if_pos hZero]
        exact Or.inr ⟨rfl, hNone, fun hNumber => by have := hNumber.2.2.2.1; omega⟩
      · rw [if_neg hZero]
        by_cases hLarge : (65535 : Int) < readNat port
        · rw [decide_eq_true hLarge]
          exact Or.inr ⟨rfl, hNone, fun hNumber => by have := hNumber.2.2.2.2; omega⟩
        · rw [decide_eq_false hLarge]
          exact Or.inl ⟨rfl, Or.inr ⟨hSome, hLength, hDigits, by omega, by omega⟩⟩

/-- How `hostPort` reads an authority: the host without its brackets, and the port digits. -/
structure Splits (authority host port : Bytes) (hostText portText : Bytes) : Prop where
  whole : authority = hostText ++ portText
  host : (hostText = 91 :: host ++ [93] ∧ 93 ∉ host) ∨
    (hostText = host ∧ host.head? ≠ some 91 ∧ 58 ∉ host)
  port : (portText = [] ∧ port = []) ∨ (portText = 58 :: port ∧ port ≠ [])

theorem hostPort_bracket {address after : Bytes} (hAddress : 93 ∉ address) :
    hostPort (91 :: address ++ 93 :: after) =
      .ok (if after = [] then .ok (address, [])
        else if after.head? ≠ some 58 then
          .error (invalid (ascii "RemoteTranscriptionOptions.url has a malformed host"))
        else if after.drop 1 = [] then
          .error (invalid (ascii "RemoteTranscriptionOptions.url has an empty port"))
        else .ok (address, after.drop 1)) := by
  have hPlain : ∀ c ∈ 91 :: address, (c == 93) = false := by
    intro c hc
    rw [beq_eq_false_iff_ne]
    rintro rfl
    rcases List.mem_cons.mp hc with hFirst | hRest
    · exact absurd hFirst (by decide)
    · exact hAddress hRest
  have hFind : find (· == 93) (91 :: address ++ 93 :: after) = some (address.length + 1) :=
    find_append hPlain (by decide)
  have hHost : substr (91 :: address ++ 93 :: after) 1 (some (address.length + 1 - 1)) = .ok address := by
    rw [substr_of_le (by simp)]
    simp
  have hAfter : substr (91 :: address ++ 93 :: after) (address.length + 1 + 1) none = .ok after :=
    substr_behind (91 :: address) after 93
  have hHead : (91 :: address ++ 93 :: after).head? = some 91 := rfl
  rw [hostPort, if_pos hHead, hFind]
  simp only [hHost, hAfter, bind, Except.bind, pure, Except.pure]
  by_cases hNone : after = []
  · rw [if_pos hNone, if_pos hNone]
  · have hPort : substr after 1 none = .ok (after.drop 1) := by
      rw [substr_of_le (List.length_pos_iff.mpr hNone), Option.getD_none, List.take_of_length_le]
      rw [List.length_drop]
      omega
    rw [if_neg hNone, if_neg hNone]
    simp only [hPort]
    split
    · rfl
    · split <;> rfl

theorem hostPort_plain {host after : Bytes} (hPlain : host.head? ≠ some 91) (hColon : 58 ∉ host) :
    hostPort (host ++ 58 :: after) =
      .ok (if after = [] then
          .error (invalid (ascii "RemoteTranscriptionOptions.url has an empty port"))
        else .ok (host, after)) := by
  have hFind : find (· == 58) (host ++ 58 :: after) = some host.length := by
    apply find_append
    · intro c hc
      rw [beq_eq_false_iff_ne]
      rintro rfl
      exact hColon hc
    · decide
  have hHead : (host ++ 58 :: after).head? ≠ some 91 := by
    cases host with
    | nil => simp
    | cons c host => simpa using hPlain
  rw [hostPort, if_neg hHead, hFind]
  simp only [substr_before, substr_behind, bind, Except.bind, pure, Except.pure]
  split <;> rfl

theorem hostPort_portless {host : Bytes} (hPlain : host.head? ≠ some 91) (hColon : 58 ∉ host) :
    hostPort host = .ok (.ok (host, [])) := by
  have hFind : find (· == 58) host = none := by
    apply find_none
    intro c hc
    rw [beq_eq_false_iff_ne]
    rintro rfl
    exact hColon hc
  rw [hostPort, if_neg hPlain, hFind]
  rfl

theorem hostPort_open {authority : Bytes} (hHead : authority.head? = some 91) (hClose : 93 ∉ authority) :
    hostPort authority =
      .ok (.error (invalid (ascii "RemoteTranscriptionOptions.url has an unterminated IPv6 host"))) := by
  have hFind : find (· == 93) authority = none := by
    apply find_none
    intro c hc
    rw [beq_eq_false_iff_ne]
    rintro rfl
    exact hClose hc
  rw [hostPort, if_pos hHead, hFind]
  rfl

/-- Every authority is a bracket without an end, one with an end, or has no bracket in front. -/
theorem authority_cases (authority : Bytes) :
    (authority.head? = some 91 ∧ 93 ∉ authority) ∨
      (∃ address after, authority = 91 :: address ++ 93 :: after ∧ 93 ∉ address) ∨
      (authority.head? ≠ some 91 ∧ 58 ∉ authority) ∨
      ∃ host after, authority = host ++ 58 :: after ∧ host.head? ≠ some 91 ∧ 58 ∉ host := by
  by_cases hHead : authority.head? = some 91
  · by_cases hClose : 93 ∈ authority
    · obtain ⟨before, after, hSplit, hBefore⟩ := List.eq_append_cons_of_mem hClose
      cases before with
      | nil =>
        rw [hSplit] at hHead
        exact absurd hHead (by simp)
      | cons first address =>
        rw [hSplit] at hHead
        have hFirst : first = 91 := by simpa using hHead
        subst hFirst
        exact Or.inr (Or.inl ⟨address, after, hSplit,
          fun hIn => hBefore (List.mem_cons_of_mem _ hIn)⟩)
    · exact Or.inl ⟨hHead, hClose⟩
  · by_cases hColon : 58 ∈ authority
    · obtain ⟨host, after, hSplit, hHost⟩ := List.eq_append_cons_of_mem hColon
      refine Or.inr (Or.inr (Or.inr ⟨host, after, hSplit, ?_, hHost⟩))
      intro hFirst
      cases host with
      | nil => cases hFirst
      | cons first host =>
        rw [hSplit] at hHead
        exact hHead (by simpa using hFirst)
    · exact Or.inr (Or.inr (Or.inl ⟨hHead, hColon⟩))

theorem Splits.hostPort {authority host port hostText portText : Bytes}
    (h : Splits authority host port hostText portText) : hostPort authority = .ok (.ok (host, port)) := by
  obtain ⟨rfl, hHost, hPort⟩ := h
  rcases hHost with ⟨rfl, hAddress⟩ | ⟨rfl, hPlain, hColon⟩
  · rw [List.append_assoc, List.singleton_append, hostPort_bracket hAddress]
    rcases hPort with ⟨rfl, rfl⟩ | ⟨rfl, hSome⟩
    · rw [if_pos rfl]
    · rw [if_neg (List.cons_ne_nil _ _), if_neg (by simp), List.drop_one, List.tail_cons, if_neg hSome]
  · rcases hPort with ⟨rfl, rfl⟩ | ⟨rfl, hSome⟩
    · rw [List.append_nil]
      exact hostPort_portless hPlain hColon
    · rw [hostPort_plain hPlain hColon, if_neg hSome]

/-- `hostPort` rejects an authority or splits it. -/
theorem hostPort_cases (authority : Bytes) :
    (∃ status, status.code = .invalidArgument ∧ hostPort authority = .ok (.error status)) ∨
      ∃ host port hostText portText, Splits authority host port hostText portText := by
  rcases authority_cases authority with ⟨hHead, hClose⟩ | ⟨address, after, rfl, hAddress⟩ |
    ⟨hPlain, hColon⟩ | ⟨host, after, rfl, hPlain, hColon⟩
  · exact Or.inl ⟨_, rfl, hostPort_open hHead hClose⟩
  · rw [hostPort_bracket hAddress]
    cases after with
    | nil => exact Or.inr ⟨address, [], 91 :: address ++ [93], [], by simp, Or.inl ⟨rfl, hAddress⟩,
        Or.inl ⟨rfl, rfl⟩⟩
    | cons c port =>
      rw [if_neg (List.cons_ne_nil _ _)]
      by_cases hColon : c = 58
      · subst hColon
        rw [if_neg (by simp), List.drop_one, List.tail_cons]
        by_cases hNone : port = []
        · rw [if_pos hNone]
          exact Or.inl ⟨_, rfl, rfl⟩
        · exact Or.inr ⟨address, port, 91 :: address ++ [93], 58 :: port, by simp,
            Or.inl ⟨rfl, hAddress⟩, Or.inr ⟨rfl, hNone⟩⟩
      · rw [if_pos (by simpa using hColon)]
        exact Or.inl ⟨_, rfl, rfl⟩
  · exact Or.inr ⟨authority, [], authority, [], (List.append_nil _).symm,
      Or.inr ⟨rfl, hPlain, hColon⟩, Or.inl ⟨rfl, rfl⟩⟩
  · rw [hostPort_plain hPlain hColon]
    by_cases hNone : after = []
    · rw [if_pos hNone]
      exact Or.inl ⟨_, rfl, rfl⟩
    · exact Or.inr ⟨host, after, host, 58 :: after, rfl, Or.inr ⟨rfl, hPlain, hColon⟩,
        Or.inr ⟨rfl, hNone⟩⟩

/-- The parts of an authority as the grammar names them. -/
def AuthorityText (authority hostText portText : Bytes) : Prop :=
  authority = hostText ++ portText ∧ HostText hostText ∧ PortText portText

theorem Splits.text {authority host port hostText portText : Bytes}
    (h : Splits authority host port hostText portText) (hHost : host ≠ [])
    (hPort : port = [] ∨ PortNumber port) : AuthorityText authority hostText portText := by
  refine ⟨h.whole, ?_, ?_⟩
  · rcases h.host with ⟨rfl, hAddress⟩ | ⟨rfl, hPlain, hColon⟩
    · exact Or.inl ⟨host, rfl, hHost, hAddress⟩
    · exact Or.inr ⟨hHost, hColon, hPlain⟩
  · rcases h.port with ⟨hNone, -⟩ | ⟨hText, hSome⟩
    · exact Or.inl hNone
    · exact Or.inr ⟨port, hText, hPort.resolve_left hSome⟩

theorem AuthorityText.splits {authority hostText portText : Bytes}
    (h : AuthorityText authority hostText portText) :
    ∃ host port, Splits authority host port hostText portText ∧ host ≠ [] ∧
      (port = [] ∨ PortNumber port) := by
  obtain ⟨hWhole, hHost, hPort⟩ := h
  have hPortParts : ∃ port, ((portText = [] ∧ port = []) ∨ (portText = 58 :: port ∧ port ≠ [])) ∧
      (port = [] ∨ PortNumber port) := by
    rcases hPort with hNone | ⟨digits, hText, hNumber⟩
    · exact ⟨[], Or.inl ⟨hNone, rfl⟩, Or.inl rfl⟩
    · exact ⟨digits, Or.inr ⟨hText, List.ne_nil_of_length_pos hNumber.1⟩, Or.inr hNumber⟩
  obtain ⟨port, hPortText, hNumber⟩ := hPortParts
  rcases hHost with ⟨address, hText, hSome, hAddress⟩ | ⟨hSome, hColon, hPlain⟩
  · exact ⟨address, port, ⟨hWhole, Or.inl ⟨hText, hAddress⟩, hPortText⟩, hSome, hNumber⟩
  · exact ⟨hostText, port, ⟨hWhole, Or.inr ⟨rfl, hPlain, hColon⟩, hPortText⟩, hSome, hNumber⟩

/-- The authority has one host text and one port text. -/
theorem Splits.unique {authority host port host' port' hostText portText hostText' portText' : Bytes}
    (h : Splits authority host port hostText portText)
    (h' : Splits authority host' port' hostText' portText') :
    hostText = hostText' ∧ portText = portText' := by
  have hSame := h.hostPort.symm.trans h'.hostPort
  have hParts := Except.ok.inj (Except.ok.inj hSame)
  obtain ⟨rfl, rfl⟩ := Prod.mk.inj hParts
  have hPort : portText = portText' := by
    rcases h.port with ⟨rfl, rfl⟩ | ⟨rfl, hSome⟩
    · rcases h'.port with ⟨rfl, -⟩ | ⟨-, hSome'⟩
      · rfl
      · exact absurd rfl hSome'
    · rcases h'.port with ⟨-, hNone⟩ | ⟨rfl, -⟩
      · exact absurd hNone hSome
      · rfl
  subst hPort
  exact ⟨List.append_cancel_right (h.whole.symm.trans h'.whole), rfl⟩

/-- The scheme of a URL, in letters of any case. -/
def SchemeText (scheme : Bytes) : Prop :=
  scheme.map lower = ascii "http://" ∨ scheme.map lower = ascii "https://"

theorem schemes_apart (a b : Bytes) : ascii "http://" ++ a ≠ ascii "https://" ++ b := by
  intro hSame
  have hFifth : (ascii "http://" ++ a)[4]? = (ascii "https://" ++ b)[4]? := by rw [hSame]
  rw [List.getElem?_append_left (by decide), List.getElem?_append_left (by decide)] at hFifth
  exact absurd hFifth (by decide)

theorem SchemeText.unique {scheme scheme' rest rest' : Bytes} (h : SchemeText scheme)
    (h' : SchemeText scheme') (hSame : scheme ++ rest = scheme' ++ rest') :
    scheme = scheme' ∧ rest = rest' := by
  have hLower := congrArg (List.map lower) hSame
  rw [List.map_append, List.map_append] at hLower
  have hForm : scheme.map lower = scheme'.map lower := by
    rcases h with hHttp | hHttps
    · rcases h' with hHttp' | hHttps'
      · exact hHttp.trans hHttp'.symm
      · rw [hHttp, hHttps'] at hLower
        exact absurd hLower (schemes_apart _ _)
    · rcases h' with hHttp' | hHttps'
      · rw [hHttps, hHttp'] at hLower
        exact absurd hLower.symm (schemes_apart _ _)
      · exact hHttps.trans hHttps'.symm
  have hLength : scheme.length = scheme'.length := by
    rw [← List.length_map lower, hForm, List.length_map]
  exact List.append_inj hSame hLength

theorem SchemeText.substr {scheme : Bytes} (h : SchemeText scheme) (rest : Bytes) :
    (startsWithCi (scheme ++ rest) (ascii "http://") = true ∨
      startsWithCi (scheme ++ rest) (ascii "https://") = true) ∧
    substr (scheme ++ rest) (if startsWithCi (scheme ++ rest) (ascii "http://") then 7 else 8) none =
      .ok rest := by
  have hDrop : ∀ count : Nat, scheme.length = count →
      StdText.substr (scheme ++ rest) count none = .ok rest := by
    rintro count rfl
    rw [StdText.substr, if_neg (by simp), List.drop_left]
  rcases h with hHttp | hHttps
  · have hStart : startsWithCi (scheme ++ rest) (ascii "http://") = true :=
      startsWithCi_iff.mpr ⟨scheme, rest, rfl, hHttp⟩
    have hLength : scheme.length = 7 := by
      rw [← List.length_map lower, hHttp]
      decide
    rw [hStart, if_pos rfl]
    exact ⟨Or.inl rfl, hDrop 7 hLength⟩
  · have hStart : startsWithCi (scheme ++ rest) (ascii "https://") = true :=
      startsWithCi_iff.mpr ⟨scheme, rest, rfl, hHttps⟩
    have hOther : ¬startsWithCi (scheme ++ rest) (ascii "http://") = true := by
      intro hBoth
      obtain ⟨front, back, hSplit, hHttp⟩ := startsWithCi_iff.mp hBoth
      have hLower := congrArg (List.map lower) hSplit
      rw [List.map_append, List.map_append, hHttps, hHttp] at hLower
      exact absurd hLower.symm (schemes_apart _ _)
    have hLength : scheme.length = 8 := by
      rw [← List.length_map lower, hHttps]
      decide
    rw [if_neg hOther]
    exact ⟨Or.inr hStart, hDrop 8 hLength⟩

theorem scheme_known {url : Bytes} (h : startsWithCi url (ascii "http://") = true ∨
    startsWithCi url (ascii "https://") = true) :
    ¬(!startsWithCi url (ascii "http://") && !startsWithCi url (ascii "https://")) = true := by
  rcases h with hStart | hStart
  · rw [hStart]
    simp
  · rw [hStart]
    simp

/-- What follows the authority: nothing, or a path, a query or a fragment. -/
def RestText (rest : Bytes) : Prop := rest = [] ∨ ∃ c tail, rest = c :: tail ∧ isDelimiter c = true

/-- The validation of a URL that is cut into scheme, authority and rest. -/
theorem validateUrl_cut {scheme authority rest : Bytes} (hScheme : SchemeText scheme)
    (hUnspaced : ∀ c ∈ scheme ++ (authority ++ rest), isSpacing c = false)
    (hAuthority : ∀ c ∈ authority, isDelimiter c = false) (hRest : RestText rest) :
    validateUrl (scheme ++ (authority ++ rest)) =
      if (find (· == 64) authority).isSome then
        .ok (some (invalid (ascii ("RemoteTranscriptionOptions.url must not carry userinfo; " ++
          "send credentials in headers"))))
      else do
        match ← hostPort authority with
        | .error status => return some status
        | .ok (host, port) =>
          if host = [] then return some (invalid (ascii "RemoteTranscriptionOptions.url has no host"))
          else if ← portRejected port then
            return some (invalid (ascii "RemoteTranscriptionOptions.url port must be a number in 1-65535"))
          else return none := by
  obtain ⟨hStart, hSubstr⟩ := hScheme.substr (authority ++ rest)
  have hKnown := scheme_known hStart
  have hNone : find isSpacing (scheme ++ (authority ++ rest)) = none := find_none hUnspaced
  have hCut : StdText.substr (authority ++ rest) 0 (find isDelimiter (authority ++ rest)) =
      .ok authority := by
    rw [substr_find, takeWhile_split hAuthority hRest]
  rw [validateUrl]
  simp only [if_neg hKnown, hNone, Option.isSome_none, Bool.false_eq_true, if_false, hSubstr, hCut, bind,
    Except.bind]
  rfl

theorem isDelimiter_iff {c : UInt8} : isDelimiter c = true ↔ c = 47 ∨ c = 63 ∨ c = 35 := by
  simp only [isDelimiter, Bool.or_eq_true, beq_iff_eq, or_assoc]

theorem isSpacing_false {c : UInt8} : isSpacing c = false ↔ c ≠ 32 ∧ c ≠ 9 ∧ c ≠ 13 ∧ c ≠ 10 := by
  simp only [isSpacing, Bool.or_eq_false_iff, beq_eq_false_iff_ne, Ne]
  tauto

theorem isDelimiter_false {c : UInt8} : isDelimiter c = false ↔ c ≠ 47 ∧ c ≠ 63 ∧ c ≠ 35 := by
  simp only [isDelimiter, Bool.or_eq_false_iff, beq_eq_false_iff_ne, Ne, and_assoc]

section Urls

variable {e f : Endpoint}

theorem Endpoint.Valid.restText (h : e.Valid) : RestText e.rest := by
  rcases h.rest with hNone | ⟨c, tail, hText, hFirst⟩
  · exact Or.inl hNone
  · exact Or.inr ⟨c, tail, hText, isDelimiter_iff.mpr hFirst⟩

theorem Endpoint.Valid.authorityText (h : e.Valid) : AuthorityText (e.host ++ e.port) e.host e.port :=
  ⟨rfl, h.host, h.port⟩

theorem Endpoint.Valid.undelimited (h : e.Valid) : ∀ c ∈ e.host ++ e.port, isDelimiter c = false := by
  intro c hc
  obtain ⟨hSlash, hQuery, hFragment, -⟩ := h.authority c hc
  exact isDelimiter_false.mpr ⟨hSlash, hQuery, hFragment⟩

/-- A URL of the grammar is accepted. -/
theorem Endpoint.Valid.accepted (h : e.Valid) : validateUrl e.text = .ok none := by
  obtain ⟨host, port, hSplits, hHost, hPort⟩ := h.authorityText.splits
  have hUser : ¬(find (· == 64) (e.host ++ e.port)).isSome = true := by
    rw [find_isSome]
    rintro ⟨c, hc, hAt⟩
    exact (h.authority c hc).2.2.2 (beq_iff_eq.mp hAt)
  have hNumber : portRejected port = .ok false := by
    rcases portRejected_cases port with ⟨hTaken, -⟩ | ⟨-, hSome, hOther⟩
    · exact hTaken
    · exact absurd hPort (not_or.mpr ⟨hSome, hOther⟩)
  rw [Endpoint.text, validateUrl_cut h.scheme (fun c hc => isSpacing_false.mpr (h.unspaced c hc))
    h.undelimited h.restText, if_neg hUser, hSplits.hostPort]
  simp only [bind, Except.bind, pure, Except.pure, if_neg hHost, hNumber, Bool.false_eq_true, if_false]

/-- The text splits where the authority ends. -/
theorem authority_split (behind : Bytes) : ∃ authority rest, behind = authority ++ rest ∧
    (∀ c ∈ authority, isDelimiter c = false) ∧ RestText rest := by
  rcases find_cases isDelimiter behind with ⟨-, hAll⟩ | ⟨before, c, after, hText, hc, hBefore, -⟩
  · exact ⟨behind, [], (List.append_nil _).symm, hAll, Or.inl rfl⟩
  · exact ⟨before, c :: after, hText, hBefore, Or.inr ⟨c, after, rfl, hc⟩⟩

theorem validateUrl_cases_of_scheme {scheme behind : Bytes} (hScheme : SchemeText scheme)
    (hUnspaced : ∀ c ∈ scheme ++ behind, isSpacing c = false) :
    (∃ e : Endpoint, e.Valid ∧ e.text = scheme ++ behind) ∨
      ∃ status, validateUrl (scheme ++ behind) = .ok (some status) ∧ status.code = .invalidArgument := by
  obtain ⟨authority, rest, rfl, hAuthority, hRest⟩ := authority_split behind
  rw [validateUrl_cut hScheme hUnspaced hAuthority hRest]
  by_cases hUser : (find (· == 64) authority).isSome = true
  · rw [if_pos hUser]
    exact Or.inr ⟨_, rfl, rfl⟩
  · rw [if_neg hUser]
    rcases hostPort_cases authority with ⟨status, hCode, hReject⟩ |
      ⟨host, port, hostText, portText, hSplits⟩
    · rw [hReject]
      exact Or.inr ⟨status, rfl, hCode⟩
    · rw [hSplits.hostPort]
      simp only [bind, Except.bind, pure, Except.pure]
      by_cases hHost : host = []
      · rw [if_pos hHost]
        exact Or.inr ⟨_, rfl, rfl⟩
      · rw [if_neg hHost]
        rcases portRejected_cases port with ⟨-, hPort⟩ | ⟨hTaken, -, -⟩
        · obtain ⟨hWhole, hHostText, hPortText⟩ := hSplits.text hHost hPort
          subst hWhole
          refine Or.inl ⟨⟨scheme, hostText, portText, rest⟩, ?_, rfl⟩
          exact {
            scheme := hScheme
            host := hHostText
            port := hPortText
            rest := hRest.imp_right fun ⟨c, tail, hText, hc⟩ => ⟨c, tail, hText, isDelimiter_iff.mp hc⟩
            authority := by
              intro c hc
              obtain ⟨hSlash, hQuery, hFragment⟩ := isDelimiter_false.mp (hAuthority c hc)
              refine ⟨hSlash, hQuery, hFragment, ?_⟩
              rintro rfl
              exact hUser (find_isSome.mpr ⟨64, hc, rfl⟩)
            unspaced := fun c hc => isSpacing_false.mp (hUnspaced c hc) }
        · rw [hTaken]
          exact Or.inr ⟨_, rfl, rfl⟩

/-- A URL is of the grammar or is rejected with a status. -/
theorem validateUrl_cases (url : Bytes) : (∃ e : Endpoint, e.Valid ∧ e.text = url) ∨
    ∃ status, validateUrl url = .ok (some status) ∧ status.code = .invalidArgument := by
  by_cases hScheme : ∃ scheme rest, SchemeText scheme ∧ url = scheme ++ rest
  · obtain ⟨scheme, behind, hScheme, rfl⟩ := hScheme
    by_cases hSpaced : (find isSpacing (scheme ++ behind)).isSome = true
    · rw [validateUrl]
      simp only [if_neg (scheme_known (hScheme.substr behind).1), if_pos hSpaced]
      exact Or.inr ⟨_, rfl, rfl⟩
    · have hUnspaced : ∀ c ∈ scheme ++ behind, isSpacing c = false := by
        intro c hc
        rw [← Bool.not_eq_true]
        exact fun hSpacing => hSpaced (find_isSome.mpr ⟨c, hc, hSpacing⟩)
      exact validateUrl_cases_of_scheme hScheme hUnspaced
  · have hUnknown : (!startsWithCi url (ascii "http://") && !startsWithCi url (ascii "https://")) = true := by
      rw [Bool.and_eq_true, Bool.not_eq_true', Bool.not_eq_true', ← Bool.not_eq_true, ← Bool.not_eq_true]
      constructor
      · intro hHttp
        obtain ⟨front, back, hSplit, hForm⟩ := startsWithCi_iff.mp hHttp
        exact hScheme ⟨front, back, Or.inl hForm, hSplit⟩
      · intro hHttps
        obtain ⟨front, back, hSplit, hForm⟩ := startsWithCi_iff.mp hHttps
        exact hScheme ⟨front, back, Or.inr hForm, hSplit⟩
    rw [validateUrl]
    simp only [if_pos hUnknown]
    exact Or.inr ⟨_, rfl, rfl⟩

/-- The parts of an endpoint are determined by its text. -/
theorem Endpoint.Valid.unique (h : e.Valid) (hf : f.Valid) (hText : e.text = f.text) : e = f := by
  obtain ⟨hScheme, hBehind⟩ := SchemeText.unique h.scheme hf.scheme hText
  have hAuthority : e.host ++ e.port = f.host ++ f.port := by
    rw [← takeWhile_split h.undelimited h.restText, hBehind, takeWhile_split hf.undelimited hf.restText]
  have hRest : e.rest = f.rest := by
    rw [hAuthority] at hBehind
    exact List.append_cancel_left hBehind
  obtain ⟨host, port, hSplits, -⟩ := h.authorityText.splits
  obtain ⟨host', port', hSplits', -⟩ := hf.authorityText.splits
  rw [← hAuthority] at hSplits'
  obtain ⟨hHost, hPort⟩ := hSplits.unique hSplits'
  cases e
  cases f
  rw [Endpoint.mk.injEq]
  exact ⟨hScheme, hHost, hPort, hRest⟩

end Urls

section Headers

theorem isTokenChar_iff {c : UInt8} : isTokenChar c = true ↔ TokenChar c := by
  have hMarks : (find (· == c) (ascii "!#$%&'*+-.^_`|~")).isSome = true ↔
      c ∈ [33, 35, 36, 37, 38, 39, 42, 43, 45, 46, 94, 95, 96, 124, 126] := by
    have hText : ascii "!#$%&'*+-.^_`|~" =
        [33, 35, 36, 37, 38, 39, 42, 43, 45, 46, 94, 95, 96, 124, 126] := by decide
    rw [hText, find_isSome]
    constructor
    · rintro ⟨x, hx, hSame⟩
      rwa [← beq_iff_eq.mp hSame]
    · intro hc
      exact ⟨c, hc, beq_self_eq_true c⟩
  rw [isTokenChar, Bool.or_eq_true, hMarks]
  simp only [Bool.or_eq_true, Bool.and_eq_true, decide_eq_true_eq, TokenChar]
  tauto

theorem isToken_iff {name : Bytes} : isToken name = true ↔ name ≠ [] ∧ ∀ c ∈ name, TokenChar c := by
  rw [isToken, Bool.and_eq_true, Bool.not_eq_true', List.isEmpty_eq_false_iff, List.all_eq_true]
  exact and_congr_right fun _ => forall₂_congr fun _ _ => isTokenChar_iff

theorem find_isBreak {value : Bytes} :
    (find isBreak value).isSome = false ↔ 13 ∉ value ∧ 10 ∉ value := by
  rw [← Bool.not_eq_true, find_isSome]
  simp only [isBreak, Bool.or_eq_true, beq_iff_eq]
  constructor
  · intro hNone
    exact ⟨fun hIn => hNone ⟨13, hIn, Or.inl rfl⟩, fun hIn => hNone ⟨10, hIn, Or.inr rfl⟩⟩
  · rintro ⟨hReturn, hFeed⟩ ⟨c, hc, rfl | rfl⟩
    · exact hReturn hc
    · exact hFeed hc

theorem headersValid_nil : HeadersValid [] where
  tokens := fun _ hNone => nomatch hNone
  distinct := List.Pairwise.nil
  values := fun _ hNone => nomatch hNone

theorem headersValid_cons {header : Bytes × Bytes} {headers : List (Bytes × Bytes)} :
    HeadersValid (header :: headers) ↔
      isToken header.1 = true ∧ (∀ other ∈ headers, header.1.map lower ≠ other.1.map lower) ∧
        (find isBreak header.2).isSome = false ∧ HeadersValid headers := by
  rw [isToken_iff, find_isBreak]
  constructor
  · rintro ⟨hTokens, hDistinct, hValues⟩
    rw [List.forall_mem_cons] at hTokens hValues
    rw [List.pairwise_cons] at hDistinct
    exact ⟨hTokens.1, hDistinct.1, hValues.1, hTokens.2, hDistinct.2, hValues.2⟩
  · rintro ⟨hToken, hFresh, hValue, hRest⟩
    constructor
    · exact List.forall_mem_cons.mpr ⟨hToken, hRest.tokens⟩
    · exact List.pairwise_cons.mpr ⟨hFresh, hRest.distinct⟩
    · exact List.forall_mem_cons.mpr ⟨hValue, hRest.values⟩

/-- The headers pass when they are valid and repeat no name that was seen. -/
theorem validateHeaders_eq_none {headers : List (Bytes × Bytes)} {seen : List Bytes} :
    validateHeaders headers seen = none ↔
      HeadersValid headers ∧ ∀ header ∈ headers, header.1.map lower ∉ seen := by
  induction headers generalizing seen with
  | nil => exact ⟨fun _ => ⟨headersValid_nil, fun _ hNone => nomatch hNone⟩, fun _ => rfl⟩
  | cons header headers ih =>
    obtain ⟨name, value⟩ := header
    rw [validateHeaders, headersValid_cons, List.forall_mem_cons]
    cases hToken : isToken name with
    | false => simp
    | true =>
      by_cases hSeen : name.map lower ∈ seen
      · simp [hSeen]
      · cases hBreak : (find isBreak value).isSome with
        | true => simp [hSeen]
        | false =>
          simp only [Bool.not_true, Bool.false_eq_true, if_false, if_neg hSeen, ih, List.mem_cons, not_or]
          constructor
          · rintro ⟨hValid, hFresh⟩
            exact ⟨⟨trivial, fun other hOther hSame => (hFresh other hOther).1 hSame.symm, trivial, hValid⟩,
              hSeen, fun other hOther => (hFresh other hOther).2⟩
          · rintro ⟨⟨-, hFresh, -, hValid⟩, -, hUnseen⟩
            exact ⟨hValid, fun other hOther => ⟨fun hSame => hFresh other hOther hSame.symm,
              hUnseen other hOther⟩⟩

theorem validateHeaders_code {headers : List (Bytes × Bytes)} {seen : List Bytes} {status : TextStatus}
    (h : validateHeaders headers seen = some status) : status.code = .invalidArgument := by
  induction headers generalizing seen with
  | nil => cases h
  | cons header headers ih =>
    obtain ⟨name, value⟩ := header
    rw [validateHeaders] at h
    split at h
    · cases h
      rfl
    · split at h
      · cases h
        rfl
      · split at h
        · cases h
          rfl
        · exact ih h

end Headers

/-- The validation of params: every key has a name and every value is set. -/
def ParamsValid (params : List (Bytes × ScalarValue)) : Prop :=
  ∀ param ∈ params, param.1 ≠ [] ∧ param.2 ≠ .notSet

theorem validateParams_cases (params : List (Bytes × ScalarValue)) :
    (validateParams params = none ∧ ParamsValid params) ∨
      ∃ status, validateParams params = some status ∧ status.code = .invalidArgument ∧
        ¬ParamsValid params := by
  induction params with
  | nil => exact Or.inl ⟨rfl, fun _ hNone => nomatch hNone⟩
  | cons param params ih =>
    obtain ⟨key, value⟩ := param
    rw [validateParams, ParamsValid, List.forall_mem_cons]
    by_cases hKey : key = []
    · rw [if_pos hKey]
      exact Or.inr ⟨_, rfl, rfl, fun hAll => hAll.1.1 hKey⟩
    · rw [if_neg hKey]
      by_cases hUnset : value = .notSet
      · rw [if_pos hUnset]
        exact Or.inr ⟨_, rfl, rfl, fun hAll => hAll.1.2 hUnset⟩
      · rw [if_neg hUnset]
        rcases ih with ⟨hNone, hValid⟩ | ⟨status, hSome, hCode, hInvalid⟩
        · exact Or.inl ⟨hNone, ⟨hKey, hUnset⟩, hValid⟩
        · exact Or.inr ⟨status, hSome, hCode, fun hAll => hInvalid hAll.2⟩

def TimeoutValid (timeout : Option Float) : Prop :=
  ∀ seconds, timeout = some seconds →
    seconds.isFinite = true ∧ ¬seconds ≤ 0.0 ∧ ¬seconds > kMaxRemoteTimeoutSeconds

theorem validateTimeout_cases (timeout : Option Float) :
    (validateTimeout timeout = none ∧ TimeoutValid timeout) ∨
      ∃ status, validateTimeout timeout = some status ∧ status.code = .invalidArgument ∧
        ¬TimeoutValid timeout := by
  cases timeout with
  | none => exact Or.inl ⟨rfl, fun _ hNone => nomatch hNone⟩
  | some seconds =>
    rw [validateTimeout]
    by_cases hOutside : (!seconds.isFinite || seconds ≤ 0.0 || seconds > kMaxRemoteTimeoutSeconds) = true
    · rw [if_pos hOutside]
      refine Or.inr ⟨_, rfl, rfl, fun hValid => ?_⟩
      obtain ⟨hFinite, hPositive, hAtMost⟩ := hValid seconds rfl
      simp only [hFinite, hPositive, hAtMost] at hOutside
      exact absurd hOutside (by decide)
    · rw [if_neg hOutside]
      simp only [Bool.or_eq_true, Bool.not_eq_true', decide_eq_true_eq, not_or, Bool.not_eq_false] at hOutside
      refine Or.inl ⟨rfl, ?_⟩
      rintro seconds' hSame
      cases hSame
      exact ⟨hOutside.1.1, hOutside.1.2, hOutside.2⟩

/-- The validation returns a status on every input. It is OK exactly for a URL of the grammar,
valid headers, params and timeout, and the parts of a URL of the grammar are unique. -/
theorem remote_options_accepted (options : RemoteTranscriptionOptions) :
    (∃ status, validateRemoteOptions options = .ok status ∧
      (status = .OK ∨ status.code = .invalidArgument)) ∧
    (validateRemoteOptions options = .ok .OK ↔
      (∃ e : Endpoint, e.Valid ∧ e.text = options.url) ∧ HeadersValid options.headers ∧
        ParamsValid options.params ∧ TimeoutValid options.timeoutSeconds) ∧
    ∀ e f : Endpoint, e.Valid → f.Valid → e.text = options.url → f.text = options.url → e = f := by
  have hUnique : ∀ e f : Endpoint, e.Valid → f.Valid → e.text = options.url → f.text = options.url →
      e = f := fun e f he hf hText hText' => he.unique hf (hText.trans hText'.symm)
  have hRejected : ∀ status : TextStatus, status.code = .invalidArgument →
      (Except.ok status : Except StdError TextStatus) ≠ .ok .OK := by
    rintro status hCode hSame
    cases hSame
    cases hCode
  rcases validateUrl_cases options.url with ⟨e, hValid, hText⟩ | ⟨status, hUrl, hCode⟩
  · have hUrl : validateUrl options.url = .ok none := hText ▸ hValid.accepted
    simp only [validateRemoteOptions, hUrl, bind, Except.bind, pure, Except.pure]
    cases hHeaders : validateHeaders options.headers [] with
    | some status =>
      have hCode := validateHeaders_code hHeaders
      refine ⟨⟨status, rfl, Or.inr hCode⟩, ?_, hUnique⟩
      refine iff_of_false (hRejected status hCode) fun ⟨_, hAll, _⟩ => ?_
      rw [validateHeaders_eq_none.mpr ⟨hAll, fun _ _ => List.not_mem_nil⟩] at hHeaders
      cases hHeaders
    | none =>
      have hNames := (validateHeaders_eq_none.mp hHeaders).1
      dsimp only
      rcases validateParams_cases options.params with ⟨hParams, hSet⟩ |
        ⟨status, hParams, hCode, hUnset⟩
      · rw [hParams]
        dsimp only
        rcases validateTimeout_cases options.timeoutSeconds with ⟨hTimeout, hInside⟩ |
          ⟨status, hTimeout, hCode, hOutside⟩
        · rw [hTimeout]
          exact ⟨⟨.OK, rfl, Or.inl rfl⟩,
            iff_of_true rfl ⟨⟨e, hValid, hText⟩, hNames, hSet, hInside⟩, hUnique⟩
        · rw [hTimeout]
          exact ⟨⟨status, rfl, Or.inr hCode⟩,
            iff_of_false (hRejected status hCode) fun ⟨_, _, _, hAll⟩ => hOutside hAll, hUnique⟩
      · rw [hParams]
        exact ⟨⟨status, rfl, Or.inr hCode⟩,
          iff_of_false (hRejected status hCode) fun ⟨_, _, hAll, _⟩ => hUnset hAll, hUnique⟩
  · simp only [validateRemoteOptions, hUrl, bind, Except.bind, pure, Except.pure]
    refine ⟨⟨status, rfl, Or.inr hCode⟩, ?_, hUnique⟩
    refine iff_of_false (hRejected status hCode) fun ⟨⟨e, hValid, hText⟩, _⟩ => ?_
    rw [← hText, hValid.accepted] at hUrl
    cases hUrl

end GrpcAsr.Asr
