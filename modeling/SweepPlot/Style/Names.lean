set_option autoImplicit false

namespace SweepPlot.Style

def knownQueues : List (String × String) :=
  [("faaaq_rust_optimised", "FAAAQueue Optimised"),
   ("faaaq_rust_unoptimised", "FAAAQueue Unoptimised"),
   ("faaa_queue_cpp", "C++ FAAAQueue"),
   ("lprq_rust_correct", "Rust LPRQ Optimised"),
   ("lcrq_rust_correct", "Rust LCRQ Optimised"),
   ("lcrq_cpp", "C++ LCRQ"),
   ("lprq_rust_unoptimised", "Rust LPRQ Unoptimised"),
   ("lcrq_rust_unoptimised", "Rust LCRQ Unoptimised"),
   ("lprq_cpp", "C++ LPRQ"),
   ("lcrq_rust", "Rust LCRQ"),
   ("lprq_rust", "Rust LPRQ"),
   ("moodycamel_cpp", "moodycamel (C++)"),
   ("seg_queue", "SegQueue"),
   ("array_queue", "ArrayQueue"),
   ("atomic_queue", "atomic-queue"),
   ("basic_queue", "BasicQueue"),
   ("bounded_ringbuffer", "Bounded Ringbuffer"),
   ("bounded_concurrent_queue", "concurrent_queue::bounded"),
   ("unbounded_concurrent_queue", "concurrent_queue::unbounded"),
   ("lf_queue", "lf-queue"),
   ("lockfree_queue", "lockfree::Queue"),
   ("lockfree_stack", "lockfree::Stack"),
   ("scc2_queue", "scc2::Queue"),
   ("scc2_stack", "scc2::Stack"),
   ("scc_queue", "scc::Queue"),
   ("scc_stack", "scc::Stack"),
   ("boost_cpp", "boost (C++)"),
   ("faaa_queue_rust", "Rust FAAAQueue"),
   ("tz_queue_hp", "TsigasZhang (HP)"),
   ("bbq", "BBQ"),
   ("ms_queue", "MSQueue")]

def knownCount : Nat := knownQueues.length

def priority? (queue : String) : Option Nat :=
  knownQueues.findIdx? fun known => known.1 == queue

def displayName (queue : String) : String :=
  ((knownQueues.find? fun known => known.1 == queue).map (·.2)).getD queue

end SweepPlot.Style
