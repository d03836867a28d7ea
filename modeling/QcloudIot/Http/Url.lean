import Mathlib.Data.List.TakeWhile
import QcloudIot.Http.Client
import QcloudIot.Utils.JsonParser

/-!
# Splitting a URL

`_http_client_parse_url` and `_http_client_parse_host` (`utils_httpc.c`). A pointer into the URL is what
stands behind it, and a difference of two pointers is an integer before it is assigned to an `uint32_t`.

* `splitUrl`: the parts of a URL;
* `SoundUrl`: no length wraps, and the parts are turned down or written to buffers that hold them;
* **`soundUrl_iff`**: this holds iff the buffers hold the host and the path of a URL without a slash,
  and no `#` stands in front of the first slash of another.
-/

namespace QcloudIot.Http

open Lib Utils

def qcloudErrHttpParse : Int := -7

/-- The string `"://"`. -/
def schemeEnd : Bytes := text "://"

/-- The parts of a URL, and the port, which is never read. -/
structure UrlParts where
  scheme : Bytes
  host : Bytes
  path : Bytes
  port : Int
  deriving DecidableEq, Repr

/-- An error, a copy of characters behind the end of the URL, or the strings written. -/
inductive Parsed (α : Type) where
  | error (code : Int)
  | overrun
  | ok (parts : α)
  deriving DecidableEq, Repr

/-- `memcpy` of `len` characters of the string at `p`. -/
def memcpy (p : Bytes) (len : UInt32) : Option Bytes :=
  if len.toNat ≤ p.length then some (p.take len.toNat) else none

/-- `_http_client_parse_url`, with the differences of pointers it computes. -/
def httpClientParseUrl (url : Bytes) (maxSchemeLen maxHostLen maxPathLen : UInt32) :
    List Int × Parsed UrlParts :=
  match find schemeEnd url with
  | none => ([], .error qcloudErrHttpParse)
  | some schemeLen =>
    if maxSchemeLen.toNat < schemeLen + 1 then ([schemeLen], .error qcloudErrHttpParse)
    else
      let scheme := url.take schemeLen
      let hostPtr := url.drop (schemeLen + 3)
      match strchr 47 hostPtr with
      | none =>
        let hostLen : Int := toInt32 (url.length % 2 ^ 32) - (schemeLen + 3)
        ([schemeLen, hostLen],
          match memcpy hostPtr (UInt32.ofInt hostLen) with
          | none => .overrun
          | some host => .ok ⟨scheme, host, [47], 0⟩)
      | some pathPtr =>
        let hostLen : Int := hostPtr.length - pathPtr.length
        if maxHostLen < UInt32.ofInt hostLen + 1 then
          ([schemeLen, hostLen], .error qcloudErrHttpParse)
        else
          match memcpy hostPtr (UInt32.ofInt hostLen) with
          | none => ([schemeLen, hostLen], .overrun)
          | some host =>
            let pathLen : Int :=
              match strchr 35 hostPtr with
              | some fragmentPtr => pathPtr.length - fragmentPtr.length
              | none => pathPtr.length
            ([schemeLen, hostLen, pathLen],
              if maxPathLen < UInt32.ofInt pathLen + 1 then .error qcloudErrHttpParse
              else
                match memcpy pathPtr (UInt32.ofInt pathLen) with
                | none => .overrun
                | some path => .ok ⟨scheme, host, path, 0⟩)

/-- `_http_client_parse_host`. -/
def httpClientParseHost (url : Bytes) (hostMaxLen : UInt32) : Parsed Bytes :=
  match find schemeEnd url with
  | none => .error qcloudErrHttpParse
  | some schemeLen =>
    let hostPtr := url.drop (schemeLen + 3)
    let proLen := UInt32.ofNat (schemeLen + 3)
    let hostLen :=
      match strchr 47 hostPtr with
      | some pathPtr => UInt32.ofNat (hostPtr.length - pathPtr.length)
      | none => UInt32.ofNat (url.length - proLen.toNat)
    if hostMaxLen < hostLen + 1 then .error qcloudErrHttpParse
    else
      match memcpy hostPtr hostLen with
      | none => .overrun
      | some host => .ok host

example : httpClientParseUrl (text "http://h.c:80/a/b#c") 8 64 1024 =
    ([4, 6, 4], .ok ⟨text "http", text "h.c:80", text "/a/b", 0⟩) := by
  decide

/-! ## The parts -/

/-- What stands behind `"://"`, cut at the first slash. -/
def hostOf (rest : Bytes) : Bytes := rest.takeWhile (· ≠ 47)

def pathOf (rest : Bytes) : Bytes := (rest.dropWhile (· ≠ 47)).takeWhile (· ≠ 35)

/-- The parts of a URL: what stands in front of the first `"://"`, what stands from there to the next
slash, and the rest up to a `#` in it. -/
def splitUrl (url : Bytes) : Option UrlParts :=
  (find schemeEnd url).map fun k =>
    let rest := url.drop (k + 3)
    ⟨url.take k, hostOf rest, if 47 ∈ rest then pathOf rest else [47], 0⟩

/-- What is asked of the parser: no length wraps below zero; there is an error, or the parts stand in
their buffers, each with its end; and the host is the one the other parser finds. -/
structure SoundUrl (url : Bytes) (maxSchemeLen maxHostLen maxPathLen : UInt32) : Prop where
  lengths : ∀ len ∈ (httpClientParseUrl url maxSchemeLen maxHostLen maxPathLen).1, 0 ≤ len
  parts : (∃ code, (httpClientParseUrl url maxSchemeLen maxHostLen maxPathLen).2 = .error code) ∨
    ∃ p, (httpClientParseUrl url maxSchemeLen maxHostLen maxPathLen).2 = .ok p ∧
      splitUrl url = some p ∧ p.scheme.length + 1 ≤ maxSchemeLen.toNat ∧
      p.host.length + 1 ≤ maxHostLen.toNat ∧ p.path.length + 1 ≤ maxPathLen.toNat
  host : ∀ p hostMaxLen host,
    (httpClientParseUrl url maxSchemeLen maxHostLen maxPathLen).2 = .ok p →
      httpClientParseHost url hostMaxLen = .ok host → p.host = host

/-- When the parser is sound behind a scheme of `k` characters that fits. A host or a path that the code
does not turn down fits, unless its length has been cut to an `uint32_t`. -/
def RestFits (url : Bytes) (k : Nat) (maxHostLen maxPathLen : UInt32) : Prop :=
  let rest := url.drop (k + 3)
  if 47 ∈ rest then
    maxHostLen < UInt32.ofNat (hostOf rest).length + 1 ∨ 35 ∉ hostOf rest ∧
      (maxPathLen < UInt32.ofNat (pathOf rest).length + 1 ∨
        (hostOf rest).length + 1 ≤ maxHostLen.toNat ∧ (pathOf rest).length + 1 ≤ maxPathLen.toNat)
  else url.length < 2 ^ 31 ∧ rest.length + 1 ≤ maxHostLen.toNat ∧ 2 ≤ maxPathLen.toNat

/-! ## Lengths and copies -/

theorem toNat_ofInt (n : Int) : ((UInt32.ofInt n).toNat : Int) = n % 2 ^ 32 := by
  rw [UInt32.ofInt, UInt32.toNat_ofNat']
  omega

theorem ofInt_nat (n : Nat) : UInt32.ofInt (n : Int) = UInt32.ofNat n := by
  have h := toNat_ofInt n
  rw [← UInt32.toNat_inj, UInt32.toNat_ofNat']
  omega

/-- A copy of a beginning that is counted right. -/
theorem memcpy_append {x y : Bytes} (h : x.length < 2 ^ 32) :
    memcpy (x ++ y) (UInt32.ofNat x.length) = some x := by
  have hlen : (UInt32.ofNat x.length).toNat = x.length := by
    rw [UInt32.toNat_ofNat', Nat.mod_eq_of_lt h]
  rw [memcpy, hlen, if_pos (by rw [List.length_append]; omega), List.take_left' rfl]

/-- A copy that is the beginning. -/
theorem length_memcpy {p x : Bytes} {len : UInt32} (h : memcpy p len = some x) :
    x.length = len.toNat := by
  unfold memcpy at h
  split at h
  · rename_i hle
    cases h
    exact List.length_take_of_le hle
  · cases h

theorem host_append (rest : Bytes) : hostOf rest ++ rest.dropWhile (· ≠ 47) = rest :=
  List.takeWhile_append_dropWhile

theorem hostOf_eq_self {rest : Bytes} (h : 47 ∉ rest) : hostOf rest = rest :=
  List.takeWhile_eq_self_iff.mpr fun _ hb => decide_eq_true fun heq => h (heq ▸ hb)

/-! ## The two kinds of URL -/

variable {url : Bytes} {k : Nat} {maxSchemeLen maxHostLen maxPathLen : UInt32}

/-- The difference of the pointers to the path and the fragment. -/
def pathLenOf (rest : Bytes) : Int :=
  match strchr 35 rest with
  | some fragmentPtr => (rest.dropWhile (· ≠ 47)).length - fragmentPtr.length
  | none => (rest.dropWhile (· ≠ 47)).length

theorem pathLen_of_notMem {rest : Bytes} (h : 35 ∉ hostOf rest) :
    pathLenOf rest = (pathOf rest).length := by
  have hsplit := host_append rest
  rw [pathOf, pathLenOf]
  generalize rest.dropWhile (· ≠ 47) = y at *
  have hhost : ∀ b ∈ hostOf rest, decide (b ≠ 35) = true := fun b hb =>
    decide_eq_true fun heq => h (heq ▸ hb)
  have hdrop : rest.dropWhile (· ≠ 35) = y.dropWhile (· ≠ 35) := by
    rw [← hsplit, List.dropWhile_append_of_pos hhost]
  have hcut := congrArg List.length (List.takeWhile_append_dropWhile (p := (· ≠ (35 : UInt8))) (l := y))
  rw [List.length_append] at hcut
  rw [strchr_eq, hdrop]
  by_cases hmem : (35 : UInt8) ∈ rest
  · rw [if_pos hmem]
    simp only
    omega
  · have hy : ∀ b ∈ y, decide (b ≠ 35) = true := fun b hb =>
      decide_eq_true fun heq => hmem (hsplit ▸ List.mem_append_right _ (heq ▸ hb))
    rw [if_neg hmem, List.takeWhile_eq_self_iff.mpr hy]

/-- A `#` in the host stands in front of the path. -/
theorem pathLen_of_mem {rest : Bytes} (h : 35 ∈ hostOf rest) : pathLenOf rest < 0 := by
  have hsplit := host_append rest
  rw [pathLenOf]
  generalize rest.dropWhile (· ≠ 47) = y at *
  have hne : (hostOf rest).dropWhile (· ≠ 35) ≠ [] := fun hnil =>
    of_decide_eq_true (List.dropWhile_eq_nil_iff.mp hnil 35 h) rfl
  have hdrop : rest.dropWhile (· ≠ 35) = (hostOf rest).dropWhile (· ≠ 35) ++ y := by
    conv_lhs => rw [← hsplit]
    rw [List.dropWhile_append, if_neg (by rwa [List.isEmpty_iff])]
  have hpos := List.length_pos_iff.mpr hne
  rw [strchr_eq, if_pos (hsplit ▸ List.mem_append_left y h), hdrop]
  simp only [List.length_append]
  omega

theorem parseUrl_plain (maxHostLen maxPathLen : UInt32) (hk : find schemeEnd url = some k)
    (hfits : k + 1 ≤ maxSchemeLen.toNat) (hplain : 47 ∉ url.drop (k + 3)) :
    httpClientParseUrl url maxSchemeLen maxHostLen maxPathLen =
      ([(k : Int), toInt32 (url.length % 2 ^ 32) - (k + 3)],
        match memcpy (url.drop (k + 3)) (UInt32.ofInt (toInt32 (url.length % 2 ^ 32) - (k + 3))) with
        | none => .overrun
        | some host => .ok ⟨url.take k, host, [47], 0⟩) := by
  rw [httpClientParseUrl, hk]
  simp only
  rw [if_neg (by omega), strchr_eq, if_neg hplain]

theorem parseUrl_slash (maxHostLen maxPathLen : UInt32) (hk : find schemeEnd url = some k)
    (hfits : k + 1 ≤ maxSchemeLen.toNat) (hslash : 47 ∈ url.drop (k + 3)) {rest : Bytes}
    (hrest : url.drop (k + 3) = rest) :
    httpClientParseUrl url maxSchemeLen maxHostLen maxPathLen =
      if maxHostLen < UInt32.ofNat (hostOf rest).length + 1 then
        ([(k : Int), ((hostOf rest).length : Int)], .error qcloudErrHttpParse)
      else
        match memcpy rest (UInt32.ofNat (hostOf rest).length) with
        | none => ([(k : Int), ((hostOf rest).length : Int)], .overrun)
        | some host => ([(k : Int), ((hostOf rest).length : Int), pathLenOf rest],
            if maxPathLen < UInt32.ofInt (pathLenOf rest) + 1 then .error qcloudErrHttpParse
            else
              match memcpy (rest.dropWhile (· ≠ 47)) (UInt32.ofInt (pathLenOf rest)) with
              | none => .overrun
              | some path => .ok ⟨url.take k, host, path, 0⟩) := by
  have hlen : (rest.length : Int) - (rest.dropWhile (· ≠ 47)).length = (hostOf rest).length := by
    have h := congrArg List.length (host_append rest)
    rw [List.length_append] at h
    omega
  rw [httpClientParseUrl, hk]
  simp only
  rw [if_neg (by omega), hrest, strchr_eq 47, if_pos (hrest ▸ hslash)]
  simp only [hlen, ofInt_nat]
  rfl

/-! ## Soundness -/

theorem length_rest (hk : find schemeEnd url = some k) :
    (url.drop (k + 3)).length + (k + 3) = url.length := by
  have hle := (prefix_of_find hk).length_le
  rw [List.length_drop, show schemeEnd.length = 3 from rfl] at hle
  rw [List.length_drop]
  omega

theorem memcpy_host {rest : Bytes} (h : (hostOf rest).length < 2 ^ 32) :
    memcpy rest (UInt32.ofNat (hostOf rest).length) = some (hostOf rest) := by
  have hcopy := memcpy_append (y := rest.dropWhile (· ≠ 47)) h
  rwa [host_append] at hcopy

/-- What the parser of the host finds. -/
theorem parseHost_eq (hk : find schemeEnd url = some k) {rest : Bytes} (hrest : url.drop (k + 3) = rest)
    (hlen : (hostOf rest).length < 2 ^ 32) {hostMaxLen : UInt32} {host : Bytes}
    (h : httpClientParseHost url hostMaxLen = .ok host) : host = hostOf rest := by
  have hall := length_rest hk
  have hsplit := congrArg List.length (host_append rest)
  rw [List.length_append] at hsplit
  rw [hrest] at hall
  rw [httpClientParseHost, hk] at h
  simp only at h
  rw [hrest, strchr_eq] at h
  by_cases hslash : 47 ∈ rest
  · rw [if_pos hslash] at h
    simp only at h
    rw [show rest.length - (rest.dropWhile (· ≠ 47)).length = (hostOf rest).length by omega,
      memcpy_host hlen] at h
    split at h
    · cases h
    · exact (Parsed.ok.inj h).symm
  · have hcounted : UInt32.ofNat (url.length - (UInt32.ofNat (k + 3)).toNat) =
        UInt32.ofNat (hostOf rest).length := by
      rw [hostOf_eq_self hslash, ← UInt32.toNat_inj, UInt32.toNat_ofNat', UInt32.toNat_ofNat',
        UInt32.toNat_ofNat']
      omega
    rw [if_neg hslash] at h
    simp only at h
    rw [hcounted, memcpy_host hlen] at h
    split at h
    · cases h
    · exact (Parsed.ok.inj h).symm

/-- An error is sound if no length wraps. -/
theorem soundUrl_error {lens : List Int} {code : Int} (hlens : ∀ len ∈ lens, 0 ≤ len)
    (h : httpClientParseUrl url maxSchemeLen maxHostLen maxPathLen = (lens, .error code)) :
    SoundUrl url maxSchemeLen maxHostLen maxPathLen := by
  refine ⟨?_, .inl ⟨code, ?_⟩, ?_⟩
  · rw [h]
    exact hlens
  · rw [h]
  · rw [h]
    exact fun p _ _ hp => by cases hp

/-- Strings that are the parts of the URL and fit are sound. -/
theorem soundUrl_ok {lens : List Int} (hlens : ∀ len ∈ lens, 0 ≤ len) {p : UrlParts}
    (h : httpClientParseUrl url maxSchemeLen maxHostLen maxPathLen = (lens, .ok p))
    (hsplit : splitUrl url = some p) (hscheme : p.scheme.length + 1 ≤ maxSchemeLen.toNat)
    (hhost : p.host.length + 1 ≤ maxHostLen.toNat) (hpath : p.path.length + 1 ≤ maxPathLen.toNat) :
    SoundUrl url maxSchemeLen maxHostLen maxPathLen := by
  refine ⟨?_, .inr ⟨p, ?_, hsplit, hscheme, hhost, hpath⟩, ?_⟩
  · rw [h]
    exact hlens
  · rw [h]
  · rw [h]
    intro p' hostMaxLen host hp' hparse
    cases hp'
    obtain ⟨k, hk, rfl⟩ := Option.map_eq_some_iff.mp hsplit
    have hmax := maxHostLen.toNat_lt
    exact (parseHost_eq hk rfl (by simp only at hhost; omega) hparse).symm

/-- What is sound copies nothing from behind the end of the URL. -/
theorem SoundUrl.not_overrun (hs : SoundUrl url maxSchemeLen maxHostLen maxPathLen) {lens : List Int} :
    httpClientParseUrl url maxSchemeLen maxHostLen maxPathLen ≠ (lens, .overrun) := by
  intro h
  rcases hs.parts with ⟨code, hcode⟩ | ⟨p, hp, -⟩
  · rw [h] at hcode
    cases hcode
  · rw [h] at hp
    cases hp

/-- Strings that are sound are the parts of the URL, and fit. -/
theorem SoundUrl.of_ok (hs : SoundUrl url maxSchemeLen maxHostLen maxPathLen) {lens : List Int}
    {p : UrlParts} (h : httpClientParseUrl url maxSchemeLen maxHostLen maxPathLen = (lens, .ok p)) :
    splitUrl url = some p ∧ p.host.length + 1 ≤ maxHostLen.toNat ∧
      p.path.length + 1 ≤ maxPathLen.toNat := by
  rcases hs.parts with ⟨code, hcode⟩ | ⟨p', hp, hsplit, -, hfits⟩
  · rw [h] at hcode
    cases hcode
  · rw [h] at hp
    cases hp
    exact ⟨hsplit, hfits⟩

/-- **A URL without a slash.** -/
theorem soundUrl_plain (hk : find schemeEnd url = some k) (hfits : k + 1 ≤ maxSchemeLen.toNat)
    (hplain : 47 ∉ url.drop (k + 3)) : SoundUrl url maxSchemeLen maxHostLen maxPathLen ↔
      url.length < 2 ^ 31 ∧ (url.drop (k + 3)).length + 1 ≤ maxHostLen.toNat ∧ 2 ≤ maxPathLen.toNat := by
  have hparse := parseUrl_plain maxHostLen maxPathLen hk hfits hplain
  have hall := length_rest hk
  have hmax := maxHostLen.toNat_lt
  have hsplit : splitUrl url = some ⟨url.take k, url.drop (k + 3), [47], 0⟩ := by
    rw [splitUrl, hk, Option.map_some]
    simp only
    rw [hostOf_eq_self hplain, if_neg hplain]
  constructor
  · intro hsound
    have hlens := hsound.lengths
    rw [hparse] at hlens
    have hwrap := hlens _ (List.mem_cons_of_mem _ List.mem_cons_self)
    cases hcopy : memcpy (url.drop (k + 3)) (UInt32.ofInt (toInt32 (url.length % 2 ^ 32) - (k + 3))) with
    | none =>
      rw [hcopy] at hparse
      exact absurd hparse hsound.not_overrun
    | some host =>
      rw [hcopy] at hparse
      obtain ⟨hp, hhost, hpath⟩ := hsound.of_ok hparse
      cases hsplit.symm.trans hp
      have hlen := length_memcpy hcopy
      have hint := toNat_ofInt (toInt32 (url.length % 2 ^ 32) - (k + 3))
      refine ⟨?_, hhost, hpath⟩
      rw [← hlen] at hint
      unfold toInt32 at hint hwrap
      simp only at hhost
      split at hint
      · rename_i hlow
        rw [if_pos hlow] at hwrap
        omega
      · rename_i hhigh
        rw [if_neg hhigh] at hwrap
        omega
  · rintro ⟨hshort, hhost, hpath⟩
    have hlen : toInt32 (url.length % 2 ^ 32) - (k + 3 : Int) = (url.drop (k + 3)).length := by
      rw [toInt32, if_pos (by omega)]
      omega
    have hcopy := memcpy_host (by rw [hostOf_eq_self hplain]; omega)
    rw [hostOf_eq_self hplain] at hcopy
    rw [hlen, ofInt_nat, hcopy] at hparse
    refine soundUrl_ok ?_ hparse hsplit ?_ hhost hpath
    · exact List.forall_mem_cons.mpr ⟨Int.natCast_nonneg k,
        List.forall_mem_singleton.mpr (Int.natCast_nonneg _)⟩
    · exact le_trans (Nat.succ_le_succ (List.length_take_le k url)) hfits

/-- **A URL with a slash.** -/
theorem soundUrl_slash (hk : find schemeEnd url = some k) (hfits : k + 1 ≤ maxSchemeLen.toNat)
    {rest : Bytes} (hrest : url.drop (k + 3) = rest) (hslash : 47 ∈ rest) :
    SoundUrl url maxSchemeLen maxHostLen maxPathLen ↔
      maxHostLen < UInt32.ofNat (hostOf rest).length + 1 ∨ 35 ∉ hostOf rest ∧
        (maxPathLen < UInt32.ofNat (pathOf rest).length + 1 ∨
          (hostOf rest).length + 1 ≤ maxHostLen.toNat ∧ (pathOf rest).length + 1 ≤ maxPathLen.toNat) := by
  have hparse := parseUrl_slash maxHostLen maxPathLen hk hfits
    (hrest ▸ hslash) hrest
  have hsplit : splitUrl url = some ⟨url.take k, hostOf rest, pathOf rest, 0⟩ := by
    rw [splitUrl, hk, Option.map_some]
    simp only
    rw [hrest, if_pos hslash]
  have hmax := maxHostLen.toNat_lt
  have hmax' := maxPathLen.toNat_lt
  by_cases hlong : maxHostLen < UInt32.ofNat (hostOf rest).length + 1
  · rw [if_pos hlong] at hparse
    refine ⟨fun _ => .inl hlong, fun _ => soundUrl_error ?_ hparse⟩
    exact List.forall_mem_cons.mpr ⟨Int.natCast_nonneg k,
      List.forall_mem_singleton.mpr (Int.natCast_nonneg _)⟩
  rw [if_neg hlong] at hparse
  rw [or_iff_right hlong]
  constructor
  · intro hsound
    cases hcopy : memcpy rest (UInt32.ofNat (hostOf rest).length) with
    | none =>
      rw [hcopy] at hparse
      exact absurd hparse hsound.not_overrun
    | some host =>
      have hlens := hsound.lengths
      rw [hcopy] at hparse
      rw [hparse] at hlens
      have hwrap := hlens (pathLenOf rest)
        (List.mem_cons_of_mem _ (List.mem_cons_of_mem _ List.mem_cons_self))
      have hfragment : 35 ∉ hostOf rest := fun hmem =>
        absurd (pathLen_of_mem hmem) (Int.not_lt.mpr hwrap)
      refine ⟨hfragment, ?_⟩
      by_cases hpathLong : maxPathLen < UInt32.ofNat (pathOf rest).length + 1
      · exact .inl hpathLong
      · simp only [pathLen_of_notMem hfragment, ofInt_nat, if_neg hpathLong] at hparse
        cases hpathCopy : memcpy (rest.dropWhile (· ≠ 47)) (UInt32.ofNat (pathOf rest).length) with
        | none =>
          rw [hpathCopy] at hparse
          exact absurd hparse hsound.not_overrun
        | some path =>
          rw [hpathCopy] at hparse
          obtain ⟨hp, hhost, hpath⟩ := hsound.of_ok hparse
          cases hsplit.symm.trans hp
          exact .inr ⟨hhost, hpath⟩
  · rintro ⟨hfragment, hpath⟩
    have hlens : ∀ len ∈ [(k : Int), ((hostOf rest).length : Int), ((pathOf rest).length : Int)], 0 ≤ len :=
      List.forall_mem_cons.mpr ⟨Int.natCast_nonneg k, List.forall_mem_cons.mpr ⟨Int.natCast_nonneg _,
        List.forall_mem_singleton.mpr (Int.natCast_nonneg _)⟩⟩
    by_cases hpathLong : maxPathLen < UInt32.ofNat (pathOf rest).length + 1
    · obtain ⟨host, hcopy⟩ : ∃ host, memcpy rest (UInt32.ofNat (hostOf rest).length) = some host := by
        have hle := (List.takeWhile_prefix (l := rest) (· ≠ 47)).length_le
        exact ⟨_, if_pos (le_trans (by rw [UInt32.toNat_ofNat']; exact Nat.mod_le _ _) hle)⟩
      rw [hcopy] at hparse
      simp only [pathLen_of_notMem hfragment, ofInt_nat, if_pos hpathLong] at hparse
      exact soundUrl_error hlens hparse
    · obtain ⟨hhost, hpathFits⟩ := hpath.resolve_left hpathLong
      rw [memcpy_host (by omega)] at hparse
      simp only [pathLen_of_notMem hfragment, ofInt_nat] at hparse
      have hcopy := memcpy_append (x := pathOf rest)
        (y := (rest.dropWhile (· ≠ 47)).dropWhile (· ≠ 35)) (by omega)
      rw [pathOf, List.takeWhile_append_dropWhile, ← pathOf] at hcopy
      rw [if_neg hpathLong, hcopy] at hparse
      refine soundUrl_ok hlens hparse hsplit ?_ hhost hpathFits
      exact le_trans (Nat.succ_le_succ (List.length_take_le k url)) hfits

/-- **The URLs that are split right.** -/
theorem soundUrl_iff (url : Bytes) (maxSchemeLen maxHostLen maxPathLen : UInt32) :
    SoundUrl url maxSchemeLen maxHostLen maxPathLen ↔ ∀ k, find schemeEnd url = some k →
      maxSchemeLen.toNat < k + 1 ∨ RestFits url k maxHostLen maxPathLen := by
  cases hk : find schemeEnd url with
  | none =>
    refine ⟨fun _ k h => absurd h (Option.some_ne_none k).symm, fun _ => ?_⟩
    have herror : httpClientParseUrl url maxSchemeLen maxHostLen maxPathLen =
        ([], .error qcloudErrHttpParse) := by
      rw [httpClientParseUrl, hk]
    exact soundUrl_error (fun len h => absurd h List.not_mem_nil) herror
  | some k =>
    by_cases hfits : maxSchemeLen.toNat < k + 1
    · refine ⟨fun _ k' h => .inl (Option.some.inj h ▸ hfits), fun _ => ?_⟩
      have herror : httpClientParseUrl url maxSchemeLen maxHostLen maxPathLen =
          ([(k : Int)], .error qcloudErrHttpParse) := by
        rw [httpClientParseUrl, hk]
        exact if_pos hfits
      exact soundUrl_error (List.forall_mem_singleton.mpr (Int.natCast_nonneg k)) herror
    · have hiff : SoundUrl url maxSchemeLen maxHostLen maxPathLen ↔
          RestFits url k maxHostLen maxPathLen := by
        unfold RestFits
        by_cases hslash : 47 ∈ url.drop (k + 3)
        · simp only [if_pos hslash]
          exact soundUrl_slash hk (by omega) rfl hslash
        · simp only [if_neg hslash]
          exact soundUrl_plain hk (by omega) hslash
      rw [hiff]
      constructor
      · exact fun h k' hk' => .inr (Option.some.inj hk' ▸ h)
      · exact fun h => (h k rfl).resolve_left hfits

/-! ## Two URLs -/

/-- A host of 64 characters, with its end, in a buffer for 64. -/
def longHost : Bytes := text "http://" ++ List.replicate 64 104

/-- A `#` in front of the slash. -/
def earlyFragment : Bytes := text "http://h#/p"

theorem urls_not_sound : ¬ SoundUrl longHost 8 64 1024 ∧ ¬ SoundUrl earlyFragment 8 64 1024 := by
  constructor
  · have hwritten : (httpClientParseUrl longHost 8 64 1024).2 =
        .ok ⟨text "http", List.replicate 64 104, [47], 0⟩ := by
      decide
    rintro ⟨-, ⟨code, h⟩ | ⟨p, h, -, -, hhost, -⟩, -⟩
    · cases hwritten.symm.trans h
    · cases hwritten.symm.trans h
      exact absurd hhost (by decide)
  · rintro ⟨hlens, -, -⟩
    exact absurd (hlens (-1) (by decide)) (by decide)

end QcloudIot.Http
