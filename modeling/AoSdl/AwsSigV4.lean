import AoSdl.Crypto
import AoSdl.Lib.SortedMap
import Mathlib.Data.List.Dedup
import Mathlib.Data.List.Lex
import Mathlib.Data.List.Sort

/-! The signature of a request for AWS, and what Signature Version 4 says that it is. The headers are put into a map
under their names in lower case, and their values are signed as they are. -/
namespace AoSdl

namespace crypto

def hex_digit (n : ℕ) : UInt8 := (bytes "0123456789abcdef").getD n 0

/-- Eight digits for each word. -/
def to_hex (words : List UInt32) : Bytes :=
  words.flatMap fun w => (List.range 8).map fun i => hex_digit (w.toNat / 16 ^ (7 - i) % 16)

/-- The words of a digest. -/
def read_words (b : Bytes) : List UInt32 := (List.range 8).map fun i => read_be32 (b.drop (4 * i))

def sha256_hex (input : Bytes) : Bytes := to_hex (read_words (sha256_raw input))

end crypto

namespace aws

open Lib.SortedMap crypto

/-- Strings are compared byte by byte. -/
scoped instance instLinearOrderUInt8 : LinearOrder UInt8 where
  le_refl := UInt8.le_refl
  le_trans _ _ _ := UInt8.le_trans
  le_antisymm _ _ := UInt8.le_antisymm
  le_total := UInt8.le_total
  lt_iff_le_not_ge a b := by
    rw [UInt8.lt_iff_toNat_lt, UInt8.le_iff_toNat_le, UInt8.le_iff_toNat_le]
    omega
  toDecidableLE := inferInstance
  toDecidableEq := inferInstance
  toDecidableLT := inferInstance

scoped instance : LinearOrder Bytes :=
  let order : LinearOrder (List UInt8) := inferInstance
  { le := order.le
    lt := order.lt
    le_refl := order.le_refl
    le_trans := order.le_trans
    le_antisymm := order.le_antisymm
    le_total := order.le_total
    lt_iff_le_not_ge := order.lt_iff_le_not_ge
    toDecidableLE := order.toDecidableLE
    toDecidableEq := instDecidableEqList
    toDecidableLT := order.toDecidableLT
    compare a b := order.compare a b
    compare_eq_compareOfLessAndEq a b := by
      rw [order.compare_eq_compareOfLessAndEq]
      congr }

/-- The hash functions: the hexadecimal text of a hash, and an authentication code. -/
structure Primitives where
  sha256 : Bytes → Bytes
  hmac_sha256 : Bytes → Bytes → Bytes
  sha256_length : ∀ d, (sha256 d).length = 64
  sha256_digits : ∀ d, ∀ c ∈ sha256 d, c ∈ bytes "0123456789abcdef"
  hmac_length : ∀ key m, (hmac_sha256 key m).length = 32

structure Credentials where
  access_key_id : Bytes
  secret_access_key : Bytes
  session_token : Bytes

/-- `sorted` is what a map is. -/
structure SignableRequest where
  method : Bytes
  uri : Bytes
  query : Bytes
  headers : List (Bytes × Bytes)
  body : Bytes
  sorted : Sorted headers

structure SignedHeaders where
  authorization : Bytes
  x_amz_date : Bytes
  x_amz_content_sha256 : Bytes
  x_amz_security_token : Bytes

/-- The time in UTC that `gmtime_r` makes of a time point. The clock counts nanoseconds in 64 bits, so that a year has
four digits. -/
structure Tm where
  year : ℕ
  mon : ℕ
  mday : ℕ
  hour : ℕ
  min : ℕ
  sec : ℕ
  year_range : 1000 ≤ year ∧ year < 10000
  ranges : 1 ≤ mon ∧ mon ≤ 12 ∧ 1 ≤ mday ∧ mday ≤ 31 ∧ hour < 24 ∧ min < 60 ∧ sec < 60

namespace detail

def is_unreserved (c : UInt8) : Bool :=
  ('A'.toUInt8 ≤ c && c ≤ 'Z'.toUInt8) || ('a'.toUInt8 ≤ c && c ≤ 'z'.toUInt8) ||
    ('0'.toUInt8 ≤ c && c ≤ '9'.toUInt8) || c = '-'.toUInt8 || c = '_'.toUInt8 || c = '.'.toUInt8 || c = '~'.toUInt8

def upper_digit (n : ℕ) : UInt8 := (bytes "0123456789ABCDEF").getD n 0

def uri_encode (s : Bytes) (encode_slash : Bool) : Bytes :=
  s.flatMap fun c =>
    if is_unreserved c || (!encode_slash && c = '/'.toUInt8) then [c]
    else ['%'.toUInt8, upper_digit (c.toNat / 16), upper_digit (c.toNat % 16)]

def to_lowercase (s : Bytes) : Bytes := s.map tolower

/-- So many digits of a number. -/
def digits (width n : ℕ) : Bytes := (List.range width).map fun i => UInt8.ofNat (48 + n / 10 ^ (width - 1 - i) % 10)

def format_iso8601 (tm : Tm) : Bytes :=
  digits 4 tm.year ++ digits 2 tm.mon ++ digits 2 tm.mday ++ bytes "T" ++ digits 2 tm.hour ++ digits 2 tm.min ++
    digits 2 tm.sec ++ bytes "Z"

def date_from_iso8601 (iso : Bytes) : Bytes := iso.take 8

end detail

open detail

def date_header : Bytes := bytes "x-amz-date"

def hash_header : Bytes := bytes "x-amz-content-sha256"

def token_header : Bytes := bytes "x-amz-security-token"

section

variable (p : Primitives) (req : SignableRequest) (creds : Credentials) (region service : Bytes) (now : Tm)

/-- The headers under their names in lower case, with those that signing sets. -/
def canonical_header_map : List (Bytes × Bytes) :=
  let headers := req.headers.foldl (fun headers b => put (to_lowercase b.1) b.2 headers) []
  let headers := put date_header (format_iso8601 now) headers
  let headers := put hash_header (p.sha256 req.body) headers
  if creds.session_token ≠ [] then put token_header creds.session_token headers else headers

/-- A turn of the loop over the map: `canonical_headers` and `signed_headers`. -/
def add_header (s : Bytes × Bytes) (b : Bytes × Bytes) : Bytes × Bytes :=
  (s.1 ++ b.1 ++ bytes ":" ++ b.2 ++ bytes "\n", (if s.2 ≠ [] then s.2 ++ bytes ";" else s.2) ++ b.1)

def sign : SignedHeaders :=
  let timestamp := format_iso8601 now
  let datestamp := date_from_iso8601 timestamp
  let encoded := uri_encode req.uri false
  let canonical_uri := if encoded = [] then bytes "/" else encoded
  let payload_hash := p.sha256 req.body
  let (canonical_headers, signed_headers) := (canonical_header_map p req creds now).foldl add_header ([], [])
  let canonical_request := req.method ++ bytes "\n" ++ canonical_uri ++ bytes "\n" ++ req.query ++ bytes "\n" ++
    canonical_headers ++ bytes "\n" ++ signed_headers ++ bytes "\n" ++ payload_hash
  let credential_scope := datestamp ++ bytes "/" ++ region ++ bytes "/" ++ service ++ bytes "/aws4_request"
  let string_to_sign := bytes "AWS4-HMAC-SHA256\n" ++ timestamp ++ bytes "\n" ++ credential_scope ++ bytes "\n" ++
    p.sha256 canonical_request
  let k_date := p.hmac_sha256 (bytes "AWS4" ++ creds.secret_access_key) datestamp
  let k_region := p.hmac_sha256 k_date region
  let k_service := p.hmac_sha256 k_region service
  let k_signing := p.hmac_sha256 k_service (bytes "aws4_request")
  let signature := to_hex (read_words (p.hmac_sha256 k_signing string_to_sign))
  { authorization := bytes "AWS4-HMAC-SHA256 Credential=" ++ creds.access_key_id ++ bytes "/" ++ credential_scope ++
      bytes ", SignedHeaders=" ++ signed_headers ++ bytes ", Signature=" ++ signature
    x_amz_date := timestamp
    x_amz_content_sha256 := payload_hash
    x_amz_security_token := creds.session_token }

end

/-! ### Signature Version 4 -/

namespace SigV4

def blank (c : UInt8) : Bool := c = 32 || c = 9

/-- The value without blanks around it, and with one space for each run of blanks in it. -/
def trimmed (value : Bytes) : Bytes := [32].intercalate ((value.splitOnP blank).filter (· ≠ []))

/-- The bytes of a URI that stand for themselves. -/
def unreserved : Bytes := bytes "ABCDEFGHIJKLMNOPQRSTUVWXYZabcdefghijklmnopqrstuvwxyz0123456789-._~"

def hex (b : Bytes) : Bytes := b.flatMap fun c => [hex_digit (c.toNat / 16), hex_digit (c.toNat % 16)]

section

variable (p : Primitives) (req : SignableRequest) (creds : Credentials) (region service : Bytes) (now : Tm)

def date : Bytes := digits 4 now.year ++ digits 2 now.mon ++ digits 2 now.mday

def date_time : Bytes := date now ++ bytes "T" ++ digits 2 now.hour ++ digits 2 now.min ++ digits 2 now.sec ++ bytes "Z"

/-- The headers that signing sets. -/
def set_headers : List (Bytes × Bytes) :=
  [(date_header, date_time now), (hash_header, p.sha256 req.body)] ++
    if creds.session_token = [] then [] else [(token_header, creds.session_token)]

/-- The headers of the request with those that signing sets, which replace others of their names. -/
def headers : List (Bytes × Bytes) :=
  (req.headers.filter fun b => to_lowercase b.1 ∉ (set_headers p req creds now).map Prod.fst) ++
    set_headers p req creds now

/-- The different names in lower case, in their order. -/
def names : List Bytes := ((headers p req creds now).map fun b => to_lowercase b.1).dedup.insertionSort (· ≤ ·)

/-- The values of all headers of a name. -/
def value (name : Bytes) : Bytes :=
  [44].intercalate (((headers p req creds now).filter fun b => to_lowercase b.1 = name).map fun b => trimmed b.2)

/-- The encoded path; the path is taken as normalised already. -/
def canonical_uri : Bytes :=
  if req.uri = [] then bytes "/"
  else req.uri.flatMap fun c =>
    if c ∈ unreserved ∨ c = 47 then [c] else [37, upper_digit (c.toNat / 16), upper_digit (c.toNat % 16)]

def canonical_headers : Bytes :=
  (names p req creds now).flatMap fun name => name ++ [58] ++ value p req creds now name ++ [10]

def signed_headers : Bytes := [59].intercalate (names p req creds now)

def canonical_request : Bytes :=
  [10].intercalate [req.method, canonical_uri req, req.query, canonical_headers p req creds now,
    signed_headers p req creds now, p.sha256 req.body]

def scope : Bytes := [47].intercalate [date now, region, service, bytes "aws4_request"]

def string_to_sign : Bytes :=
  [10].intercalate [bytes "AWS4-HMAC-SHA256", date_time now, scope region service now,
    p.sha256 (canonical_request p req creds now)]

def signing_key : Bytes :=
  [date now, region, service, bytes "aws4_request"].foldl p.hmac_sha256 (bytes "AWS4" ++ creds.secret_access_key)

def signature : Bytes :=
  hex (p.hmac_sha256 (signing_key p creds region service now) (string_to_sign p req creds region service now))

def authorization : Bytes :=
  bytes "AWS4-HMAC-SHA256 Credential=" ++ creds.access_key_id ++ [47] ++ scope region service now ++
    bytes ", SignedHeaders=" ++ signed_headers p req creds now ++ bytes ", Signature=" ++
    signature p req creds region service now

end

end SigV4

end aws

end AoSdl
