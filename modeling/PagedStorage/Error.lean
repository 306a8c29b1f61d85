import PagedStorage.PageId
import PagedStorage.Text.Hex
import PagedStorage.Text.Utf8

namespace PagedStorage

inductive FormatFault
  | wrongSize (page : PageId) (size : Nat)
  | badMagic (page : PageId) (magic : UInt32)
  | corruptHeader (page : PageId) (slots lower upper : UInt16)
  /-- A directory entry points outside the tuple area. -/
  | straySlot (page : PageId) (slot start stop : Nat)
  | badTag (tag : UInt8) (position : Nat)
  /-- A field needs more bytes than are left from `position` on. -/
  | truncatedField (needed position size : Nat)
  | notText (defect : Utf8.Defect)
  | described (text : String)
deriving DecidableEq, Repr

inductive ArgumentFault
  | textTooLong (size : Nat)
  | rowTooLong (size : Nat)
  | unreadable (page : PageId)
  | notAddressable (page : PageId)
  | misdirectedImage (image target : PageId)
  /-- The sentinel is no candidate for eviction. -/
  | notWithdrawable (page : PageId)
  | withdrawalRefused (page : PageId)
  | emptyPool
  | policyCount (count : Nat)
  | zeroInterval
  | emptyBatch
  | described (text : String)
deriving DecidableEq, Repr

inductive IoFault
  /-- The system refused, for a reason in words of its own. -/
  | system
  /-- The store was told to fail such calls. -/
  | injectedRead
  | injectedWrite
  | described (text : String)
deriving DecidableEq, Repr

inductive StorageError
  | format (fault : FormatFault)
  | pageFull (page : PageId) (needed available : Nat)
  | noFreeFrames (cached : Nat)
  | pageNotFound (page : PageId)
  | slotOutOfRange (slot slotCount : Nat)
  | invalidArgument (fault : ArgumentFault)
  | io (fault : IoFault)
deriving DecidableEq, Repr

namespace FormatFault

def text : FormatFault → String
  | wrongSize page size => s!"{page.text}: expected {pageSize} bytes, got {size}"
  | badMagic page magic => s!"{page.text}: bad magic 0x{Hex.padded 8 magic.toNat}"
  | corruptHeader page slots lower upper =>
    s!"{page.text}: corrupt header (slots {slots}, lower {lower}, upper {upper})"
  | straySlot page slot start stop =>
    s!"{page.text}: slot {slot} spans {start}..{stop} outside the tuple area"
  | badTag tag position => s!"bad tag {tag} at byte {position}"
  | truncatedField needed position size =>
    s!"truncated field: need {needed} bytes at {position}, tuple is {size} bytes"
  | notText defect => s!"text field is not UTF-8: {defect.text}"
  | described text => text

end FormatFault

namespace ArgumentFault

def text : ArgumentFault → String
  | textTooLong size => s!"text of {size} bytes exceeds the 65535 byte limit"
  | rowTooLong size => s!"row of {size} bytes exceeds the {maxTupleSize} byte page capacity"
  | unreadable page => s!"cannot read {page.text}"
  | notAddressable page => s!"{page.text} is not addressable"
  | misdirectedImage image target => s!"page image for {image.text} passed as {target.text}"
  | notWithdrawable page => s!"cannot delete {page.text} from lru replacer"
  | withdrawalRefused page => s!"refused {page.text}"
  | emptyPool => "pool_size must be > 0"
  | policyCount count => s!"a pool takes one or two replacers, got {count}"
  | zeroInterval => "writer intervals must be non-zero"
  | emptyBatch => "max_dirty_pages must be > 0"
  | described text => text

end ArgumentFault

def IoFault.text : IoFault → String
  | system => "the system refused the access"
  | injectedRead => "injected read failure"
  | injectedWrite => "injected write failure"
  | described text => text

namespace StorageError

def message : StorageError → String
  | format fault => s!"format error: {fault.text}"
  | pageFull page needed available =>
    s!"page {page.text} is full: need {needed} bytes, {available} available"
  | noFreeFrames cached => s!"no evictable frame: all {cached} cached pages are pinned"
  | pageNotFound page => s!"{page.text} not found"
  | slotOutOfRange slot slotCount => s!"slot {slot} out of range for page with {slotCount} slots"
  | invalidArgument fault => s!"invalid argument: {fault.text}"
  | io fault => s!"I/O error: {fault.text}"

/-- Whether more room, on the page or in the pool, would have helped. -/
def isCapacity : StorageError → Bool
  | pageFull .. | noFreeFrames _ => true
  | _ => false

def isNotFound : StorageError → Bool
  | pageNotFound _ => true
  | _ => false

end StorageError

end PagedStorage
