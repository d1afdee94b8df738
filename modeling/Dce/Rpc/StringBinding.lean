import Mathlib.Data.List.Basic

set_option linter.style.nameCheck false

namespace dce.rpc.combind

/-- What a routine does to memory that is not its own. -/
inductive Fault where
  /-- It reads behind the NUL of a string. -/
  | past_nul
  /-- It writes behind the end of a buffer. -/
  | past_buffer
  /-- It never returns. -/
  | no_end
  deriving DecidableEq, Repr

inductive string_status_t where
  | rpc_s_ok
  | rpc_s_no_memory
  | rpc_s_invalid_string_binding
  deriving DecidableEq, Repr

section Strings

/-!
A string is the list of the characters in front of its NUL, and a pointer into it is what is left of the list there.
-/

/-- The loop of `rpc__strcspn`: an escape takes the character behind the escaped one along, and both are passed as one. -/
def rpc__strcspn.search (term_set : List Char) : Bool → ℕ → List Char → Except Fault ℕ
  | _, _, [] => .ok 0
  | escaped, count, c :: ptr =>
    if c = '\\' then
      match ptr with
      | [] => .ok 0
      | [_] => .error .past_nul
      | c :: _ :: ptr => search term_set (c == '\\') (count + 1) ptr
    else if escaped then
      match ptr with
      | [] => .error .past_nul
      | _ :: ptr => search term_set false (count + 1) ptr
    else if c ∈ term_set then .ok count
    else search term_set false (count + 1) ptr

/-- `rpc__strcspn`: the place of the first terminator, counted from 1, or 0. -/
def rpc__strcspn (string term_set : List Char) : Except Fault ℕ := rpc__strcspn.search term_set false 1 string

def isBlank (c : Char) : Bool := c == ' ' || c == '\t'

/-- `rpc__strsqz`: the string it leaves. -/
def rpc__strsqz : List Char → Except Fault (List Char)
  | [] => .ok []
  | c :: ptr =>
    if c = '\\' then
      match ptr with
      | [] => .error .past_nul
      | c' :: ptr => (rpc__strsqz ptr).map fun squeezed => c :: c' :: squeezed
    else if isBlank c then rpc__strsqz ptr
    else (rpc__strsqz ptr).map (c :: ·)

end Strings

section Buffers

/-- The results of a parse. -/
inductive Part where
  | string_object_uuid
  | protseq
  | netaddr
  | endpoint
  | network_options
  deriving DecidableEq, Repr

def Part.all : List Part := [.string_object_uuid, .protseq, .netaddr, .endpoint, .network_options]

/-- An allocated piece of memory and the string in it. -/
structure Buffer where
  size : ℕ
  text : List Char
  deriving DecidableEq, Repr

/-- The heap: which requests it grants, and the two counts it keeps of them. -/
structure MemStats where
  grants : ℕ → Bool
  calls : ℕ
  inuse : ℕ

/-- The heap and the pointers that the caller gets; `none` is NULL. -/
structure Outputs where
  mem : MemStats
  result : Part → Option Buffer

/-- Why a parse stops early: it left its memory, or it goes to `CLEANUP`. -/
inductive Stop where
  | fault (fault : Fault)
  | cleanup (status : string_status_t) (outputs : Outputs)

/-- `RPC_MEM_ALLOC` into one of the results, with the test of its success. -/
def RPC_MEM_ALLOC (part : Part) (size : ℕ) (o : Outputs) : Except Stop Outputs :=
  if o.mem.grants o.mem.calls then
    .ok { mem := { o.mem with calls := o.mem.calls + 1, inuse := o.mem.inuse + 1 }
          result := Function.update o.result part (some ⟨size, []⟩) }
  else
    .error (.cleanup .rpc_s_no_memory
      { mem := { o.mem with calls := o.mem.calls + 1 }, result := Function.update o.result part none })

/-- `len` characters and a NUL are written from the start of a result on; `text` is the string that is then in it. -/
def write (part : Part) (text : List Char) (len : ℕ) (o : Outputs) : Except Stop Outputs :=
  match o.result part with
  | none => .error (.fault .past_buffer)
  | some buffer =>
    if len < buffer.size then .ok { o with result := Function.update o.result part (some { buffer with text := text }) }
    else .error (.fault .past_buffer)

/-- `rpc__strncpy` to the start of a result. -/
def rpc__strncpy (part : Part) (src_string : List Char) (max_len : ℕ) (o : Outputs) : Except Stop Outputs :=
  write part (src_string.take max_len) max_len o

def Outputs.text (o : Outputs) (part : Part) : List Char := ((o.result part).map Buffer.text).getD []

/-- `rpc_string_free` of a result that is not NULL. -/
def rpc_string_free (o : Outputs) (part : Part) : Outputs :=
  if (o.result part).isSome then
    { mem := { o.mem with inuse := o.mem.inuse - 1 }, result := Function.update o.result part none }
  else o

def strcspn (string term_set : List Char) : Except Stop ℕ := (rpc__strcspn string term_set).mapError .fault

end Buffers

section Parse

variable (wanted : Part → Bool)

/-- One of the first three results is copied out, when the caller asked for it. -/
def copy_out (part : Part) (size len : ℕ) (binding_ptr : List Char) (o : Outputs) : Except Stop Outputs :=
  if wanted part then do
    let o ← RPC_MEM_ALLOC part size o
    rpc__strncpy part binding_ptr len o
  else .ok o

def parse_string_object_uuid (binding_ptr : List Char) (o : Outputs) : Except Stop (List Char × Outputs) := do
  let count ← strcspn binding_ptr ['@']
  let o ← copy_out wanted .string_object_uuid (count + 1) (count - 1) binding_ptr o
  return (binding_ptr.drop count, o)

def parse_protseq (binding_ptr : List Char) (o : Outputs) : Except Stop (List Char × Outputs) := do
  let count ← strcspn binding_ptr [':']
  let o ← copy_out wanted .protseq (count + 1) (count - 1) binding_ptr o
  return (binding_ptr.drop count, o)

/-- `"endpoint"`. -/
def endpointTag : List Char := ['e', 'n', 'd', 'p', 'o', 'i', 'n', 't']

/-- Whether what the pointer is at is an endpoint, and the pointer behind its tag. -/
def option_tag (binding_ptr : List Char) : Except Stop (Bool × List Char) := do
  let count ← strcspn binding_ptr ['=', ',']
  if count = 0 ∨ binding_ptr[count - 1]? ≠ some '=' then
    return (true, binding_ptr)
  else
    let ptr := binding_ptr.dropWhile isBlank
    let count := count - (binding_ptr.length - ptr.length)
    if ptr.take (count - 1) = endpointTag.take (count - 1) then
      return (true, ptr.drop count)
    else
      return (false, ptr)

/-- One round of the loop over the options: the count it ends with, and the pointer. -/
def parse_option (binding_ptr : List Char) (o : Outputs) : Except Stop (ℕ × List Char × Outputs) := do
  let (get_endpoint, ptr) ← option_tag binding_ptr
  let count ← strcspn ptr [',', ']']
  if get_endpoint then
    if wanted .endpoint then
      if count = 0 ∨ (o.result .endpoint).isSome then
        .error (.cleanup .rpc_s_invalid_string_binding o)
      else
        let o ← RPC_MEM_ALLOC .endpoint count o
        let endpoint := (ptr.take (count - 1)).filter (· ≠ '\\')
        let o ← write .endpoint endpoint endpoint.length o
        return (count, ptr.drop count, o)
    else
      return (count, ptr.drop count, o)
  else if count = 0 ∧ ptr ≠ [] then
    .error (.cleanup .rpc_s_invalid_string_binding o)
  else if wanted .network_options then
    if count = 0 then
      .error (.cleanup .rpc_s_invalid_string_binding o)
    else
      -- `option_ptr` is at the NUL of the options collected so far
      let options := o.text .network_options
      let o ← write .network_options (options ++ ptr.take count) (options.length + count) o
      return (count, ptr.drop count, o)
  else
    return (count, ptr.drop count, o)

def parse_options : ℕ → ℕ → List Char → Outputs → Except Stop Outputs
  | 0, _, _, _ => .error (.fault .no_end)
  | rounds + 1, count, binding_ptr, o =>
    if 0 < count ∧ binding_ptr ≠ [] then do
      let (count, binding_ptr, o) ← parse_option wanted binding_ptr o
      parse_options rounds count binding_ptr o
    else .ok o

def parse_netaddr (binding_ptr : List Char) (o : Outputs) : Except Stop Outputs := do
  let count ← strcspn binding_ptr ['[']
  if count = 0 then
    copy_out wanted .netaddr (binding_ptr.length + 1) binding_ptr.length binding_ptr o
  else
    let o ← copy_out wanted .netaddr count (count - 1) binding_ptr o
    let ptr := binding_ptr.drop count
    let o ← if wanted .network_options then do
        let o ← RPC_MEM_ALLOC .network_options (ptr.length + 1) o
        write .network_options [] 0 o
      else .ok o
    -- no round but the last leaves the pointer where it was
    parse_options wanted (ptr.length + 1) count ptr o

/-- White space is taken out of a result, or an empty string is made for one that was not found; from the options the
last separator goes as well. -/
def finish (part : Part) (o : Outputs) : Except Stop Outputs :=
  if wanted part then
    match o.result part with
    | some buffer => do
      let squeezed ← (rpc__strsqz buffer.text).mapError .fault
      let text := if part = .network_options then squeezed.dropLast else squeezed
      write part text squeezed.length o
    | none => do
      let o ← RPC_MEM_ALLOC part 1 o
      write part [] 0 o
  else .ok o

/-- The parse up to `CLEANUP`. -/
def parse (string_binding : List Char) (o : Outputs) : Except Stop Outputs := do
  let (binding_ptr, o) ← parse_string_object_uuid wanted string_binding o
  let (binding_ptr, o) ← parse_protseq wanted binding_ptr o
  let o ← parse_netaddr wanted binding_ptr o
  Part.all.foldlM (fun o part => finish wanted part o) o

/-- `rpc_string_binding_parse` of a string that is not NULL, for a caller that gives places for the wanted results. -/
def rpc_string_binding_parse (string_binding : List Char) (mem : MemStats) : Except Fault (string_status_t × Outputs) :=
  match parse wanted string_binding ⟨mem, fun _ => none⟩ with
  | .ok o => .ok (.rpc_s_ok, o)
  | .error (.cleanup status o) => .ok (status, Part.all.foldl rpc_string_free o)
  | .error (.fault fault) => .error fault

end Parse

section Compose

variable (string_object_uuid protseq netaddr endpoint network_options : Option (List Char))

def string_binding_size : ℕ :=
  1 + (if string_object_uuid.getD [] ≠ [] then (string_object_uuid.getD []).length + 1 else 0) +
    (protseq.elim 0 fun text => text.length + 1) + (netaddr.elim 0 fun text => text.length + 1) +
    (endpoint.elim 0 fun text => text.length + 2) + (network_options.elim 0 fun text => text.length + 2)

def string_binding_text : List Char :=
  (if string_object_uuid.getD [] ≠ [] then string_object_uuid.getD [] ++ ['@'] else []) ++
    (protseq.elim [] fun text => text ++ [':']) ++ netaddr.getD [] ++
    if endpoint.isSome || network_options.isSome then
      ['['] ++ endpoint.getD [] ++ (if endpoint.isSome && network_options.getD [] ≠ [] then [','] else []) ++
        network_options.getD [] ++ [']']
    else []

/-- `rpc_string_binding_compose` for a caller that gives a place for the result; `granted` tells whether there is memory for
it. -/
def rpc_string_binding_compose (granted : Bool) : Except Fault (string_status_t × Option Buffer) :=
  if granted then
    let text := string_binding_text string_object_uuid protseq netaddr endpoint network_options
    let size := string_binding_size string_object_uuid protseq netaddr endpoint network_options
    if text.length < size then .ok (.rpc_s_ok, some ⟨size, text⟩) else .error .past_buffer
  else .ok (.rpc_s_no_memory, none)

end Compose

end dce.rpc.combind
