import IncludeAudit.Provider.Visibility

/-!
# Tables of standard and platform headers

A row says that what its source declares is available from its target. The source of a row is an
implementation header, a public header with an alternative, or, in the last table, a symbol whose
header cannot be told from a declaration.
-/

namespace IncludeAudit

/-- One row of a table. -/
structure BuiltinRow where
  source : String
  visibility : Visibility
  target : String
  targetVisibility : Visibility
  deriving DecidableEq, Repr

namespace BuiltinRow

/-- A private source that a public target replaces. -/
def replaced (source target : String) : BuiltinRow :=
  ⟨source, .priv, target, .pub⟩

/-- A private source of which the target is private as well. -/
def chained (source target : String) : BuiltinRow :=
  ⟨source, .priv, target, .priv⟩

/-- A public source with another public header that provides the same. -/
def alternative (source target : String) : BuiltinRow :=
  ⟨source, .pub, target, .pub⟩

end BuiltinRow

namespace BuiltinTable

open BuiltinRow (replaced chained alternative)

/-- The public headers of the C++ standard library. No mapping makes one private. -/
def publicHeaders : List String :=
  ["<algorithm>", "<array>", "<atomic>", "<bitset>", "<chrono>", "<codecvt>", "<complex>",
    "<condition_variable>", "<deque>", "<exception>", "<forward_list>", "<fstream>",
    "<functional>", "<future>", "<initializer_list>", "<iomanip>", "<ios>", "<iosfwd>",
    "<iostream>", "<istream>", "<iterator>", "<limits>", "<list>", "<locale>", "<map>",
    "<memory>", "<mutex>", "<new>", "<numeric>", "<ostream>", "<queue>", "<random>", "<ratio>",
    "<regex>", "<scoped_allocator>", "<set>", "<sstream>", "<stack>", "<stdexcept>",
    "<streambuf>", "<string>", "<strstream>", "<system_error>", "<thread>", "<tuple>",
    "<type_traits>", "<typeindex>", "<typeinfo>", "<unordered_map>", "<unordered_set>",
    "<utility>", "<valarray>", "<vector>"]

/-- The implementation headers of the GNU C++ library. -/
def gnuCxx : List BuiltinRow :=
  [ replaced "<bits/stl_algo.h>" "<algorithm>",
    replaced "<bits/stl_algobase.h>" "<algorithm>",
    replaced "<bits/stl_heap.h>" "<algorithm>",
    replaced "<bits/stl_vector.h>" "<vector>",
    replaced "<bits/stl_bvector.h>" "<vector>",
    replaced "<bits/vector.tcc>" "<vector>",
    replaced "<bits/stl_list.h>" "<list>",
    replaced "<bits/list.tcc>" "<list>",
    replaced "<bits/stl_deque.h>" "<deque>",
    replaced "<bits/stl_map.h>" "<map>",
    replaced "<bits/stl_multimap.h>" "<map>",
    replaced "<bits/stl_set.h>" "<set>",
    replaced "<bits/stl_multiset.h>" "<set>",
    replaced "<bits/stl_tree.h>" "<map>",
    replaced "<bits/stl_tree.h>" "<set>",
    replaced "<bits/stl_queue.h>" "<queue>",
    replaced "<bits/stl_stack.h>" "<stack>",
    replaced "<bits/stl_pair.h>" "<utility>",
    replaced "<bits/move.h>" "<utility>",
    replaced "<bits/stl_function.h>" "<functional>",
    replaced "<bits/std_function.h>" "<functional>",
    replaced "<bits/stl_numeric.h>" "<numeric>",
    replaced "<bits/stl_iterator.h>" "<iterator>",
    replaced "<bits/stl_iterator_base_types.h>" "<iterator>",
    replaced "<bits/stl_iterator_base_funcs.h>" "<iterator>",
    replaced "<bits/basic_string.h>" "<string>",
    replaced "<bits/basic_string.tcc>" "<string>",
    replaced "<bits/char_traits.h>" "<string>",
    replaced "<bits/stringfwd.h>" "<string>",
    replaced "<bits/stringfwd.h>" "<iosfwd>",
    replaced "<bits/unique_ptr.h>" "<memory>",
    replaced "<bits/shared_ptr.h>" "<memory>",
    replaced "<bits/shared_ptr_base.h>" "<memory>",
    replaced "<bits/allocator.h>" "<memory>",
    replaced "<bits/stl_construct.h>" "<memory>",
    replaced "<bits/stl_uninitialized.h>" "<memory>",
    replaced "<bits/unordered_map.h>" "<unordered_map>",
    replaced "<bits/unordered_set.h>" "<unordered_set>",
    replaced "<bits/hashtable.h>" "<unordered_map>",
    replaced "<bits/hashtable.h>" "<unordered_set>",
    replaced "<bits/functional_hash.h>" "<functional>",
    replaced "<bits/ios_base.h>" "<ios>",
    replaced "<bits/basic_ios.h>" "<ios>",
    replaced "<bits/ostream.tcc>" "<ostream>",
    replaced "<bits/istream.tcc>" "<istream>",
    replaced "<bits/sstream.tcc>" "<sstream>",
    replaced "<bits/fstream.tcc>" "<fstream>",
    replaced "<bits/locale_facets.h>" "<locale>",
    replaced "<bits/exception.h>" "<exception>",
    replaced "<bits/exception_ptr.h>" "<exception>",
    replaced "<bits/functexcept.h>" "<stdexcept>",
    replaced "<bits/std_mutex.h>" "<mutex>",
    replaced "<bits/unique_lock.h>" "<mutex>",
    replaced "<bits/std_thread.h>" "<thread>",
    replaced "<bits/chrono.h>" "<chrono>",
    replaced "<bits/atomic_base.h>" "<atomic>",
    replaced "<bits/random.h>" "<random>",
    replaced "<bits/regex.h>" "<regex>",
    replaced "<bits/c++config.h>" "<cstddef>",
    replaced "<ext/new_allocator.h>" "<memory>",
    replaced "<ext/alloc_traits.h>" "<memory>",
    replaced "<ext/type_traits.h>" "<type_traits>",
    alternative "<ios>" "<istream>",
    alternative "<ios>" "<ostream>",
    alternative "<istream>" "<iostream>",
    alternative "<istream>" "<fstream>",
    alternative "<istream>" "<sstream>",
    alternative "<ostream>" "<iostream>",
    alternative "<ostream>" "<fstream>",
    alternative "<ostream>" "<sstream>" ]

/-- The implementation headers of the GNU C library. -/
def gnuC : List BuiltinRow :=
  [ replaced "<bits/types.h>" "<sys/types.h>",
    replaced "<bits/typesizes.h>" "<sys/types.h>",
    replaced "<bits/stdint-intn.h>" "<stdint.h>",
    replaced "<bits/stdint-uintn.h>" "<stdint.h>",
    replaced "<bits/wordsize.h>" "<limits.h>",
    replaced "<bits/posix1_lim.h>" "<limits.h>",
    replaced "<bits/local_lim.h>" "<limits.h>",
    replaced "<bits/errno.h>" "<errno.h>",
    replaced "<bits/fcntl.h>" "<fcntl.h>",
    replaced "<bits/stat.h>" "<sys/stat.h>",
    replaced "<bits/signum.h>" "<signal.h>",
    replaced "<bits/sigaction.h>" "<signal.h>",
    replaced "<bits/sigset.h>" "<signal.h>",
    replaced "<bits/time.h>" "<time.h>",
    replaced "<bits/types/struct_timespec.h>" "<time.h>",
    replaced "<bits/types/struct_timeval.h>" "<sys/time.h>",
    replaced "<bits/types/FILE.h>" "<stdio.h>",
    replaced "<bits/stdio.h>" "<stdio.h>",
    replaced "<bits/string.h>" "<string.h>",
    replaced "<bits/pthreadtypes.h>" "<pthread.h>",
    replaced "<bits/socket.h>" "<sys/socket.h>",
    replaced "<bits/in.h>" "<netinet/in.h>",
    replaced "<bits/mman.h>" "<sys/mman.h>",
    replaced "<bits/dirent.h>" "<dirent.h>",
    replaced "<bits/confname.h>" "<unistd.h>",
    replaced "<bits/environments.h>" "<unistd.h>",
    replaced "<bits/byteswap.h>" "<byteswap.h>",
    replaced "<bits/endian.h>" "<endian.h>",
    replaced "<bits/select.h>" "<sys/select.h>",
    replaced "<bits/ioctls.h>" "<sys/ioctl.h>",
    replaced "<bits/mathcalls.h>" "<math.h>",
    replaced "<bits/setjmp.h>" "<setjmp.h>",
    alternative "<stdarg.h>" "<cstdarg>",
    alternative "<stddef.h>" "<cstddef>",
    alternative "<stdint.h>" "<cstdint>",
    alternative "<stdio.h>" "<cstdio>",
    alternative "<stdlib.h>" "<cstdlib>",
    alternative "<string.h>" "<cstring>",
    alternative "<math.h>" "<cmath>",
    alternative "<limits.h>" "<climits>",
    alternative "<assert.h>" "<cassert>",
    alternative "<ctype.h>" "<cctype>",
    alternative "<errno.h>" "<cerrno>",
    alternative "<time.h>" "<ctime>",
    alternative "<signal.h>" "<csignal>",
    alternative "<setjmp.h>" "<csetjmp>" ]

/-- The machine headers of FreeBSD: those of a processor lead to those of the machine, and these to
the headers of the system. -/
def freeBsd : List BuiltinRow :=
  [ replaced "<x86/_align.h>" "<sys/param.h>",
    replaced "<x86/apicvar.h>" "<machine/smp.h>",
    replaced "<x86/bus.h>" "<machine/bus.h>",
    replaced "<x86/cputypes.h>" "<machine/cputypes.h>",
    replaced "<x86/elf.h>" "<elf.h>",
    replaced "<x86/endian.h>" "<endian.h>",
    replaced "<x86/float.h>" "<float.h>",
    replaced "<x86/fpu.h>" "<machine/fpu.h>",
    replaced "<x86/fpu.h>" "<machine/npx.h>",
    replaced "<x86/_inttypes.h>" "<inttypes.h>",
    replaced "<x86/_limits.h>" "<sys/limits.h>",
    replaced "<x86/psl.h>" "<machine/psl.h>",
    replaced "<x86/segments.h>" "<machine/segments.h>",
    replaced "<x86/setjmp.h>" "<setjmp.h>",
    replaced "<x86/signal.h>" "<sys/signal.h>",
    replaced "<x86/specialreg.h>" "<machine/specialreg.h>",
    replaced "<x86/stdarg.h>" "<stdarg.h>",
    replaced "<x86/_stdint.h>" "<stdint.h>",
    chained "<x86/_types.h>" "<machine/_types.h>",
    replaced "<x86/ucontext.h>" "<ucontext.h>",
    replaced "<machine/_align.h>" "<sys/param.h>",
    replaced "<machine/atomic.h>" "<sys/mutex.h>",
    replaced "<machine/_bus.h>" "<machine/bus.h>",
    replaced "<machine/_bus.h>" "<sys/bus.h>",
    replaced "<machine/counter.h>" "<sys/counter.h>",
    replaced "<machine/cpufunc.h>" "<sys/mutex.h>",
    replaced "<machine/elf.h>" "<elf.h>",
    replaced "<machine/endian.h>" "<sys/endian.h>",
    replaced "<machine/exec.h>" "<sys/exec.h>",
    replaced "<machine/_inttypes.h>" "<inttypes.h>",
    replaced "<machine/_limits.h>" "<sys/limits.h>",
    replaced "<machine/signal.h>" "<sys/signal.h>",
    replaced "<machine/_stdint.h>" "<stdint.h>",
    chained "<machine/_types.h>" "<sys/_types.h>",
    replaced "<sys/_stdint.h>" "<stdint.h>",
    replaced "<sys/_types.h>" "<sys/types.h>" ]

/-- The symbols that are macros or types known without a declaration. -/
def symbols : List BuiltinRow :=
  [ replaced "NULL" "<cstddef>",
    replaced "NULL" "<cstdio>",
    replaced "NULL" "<cstring>",
    replaced "NULL" "<cstdlib>",
    replaced "size_t" "<cstddef>",
    replaced "ptrdiff_t" "<cstddef>",
    replaced "offsetof" "<cstddef>",
    replaced "va_list" "<cstdarg>",
    replaced "errno" "<cerrno>",
    replaced "EOF" "<cstdio>",
    replaced "std::size_t" "<cstddef>",
    replaced "std::nullptr_t" "<cstddef>",
    replaced "std::allocator" "<memory>",
    replaced "std::char_traits" "<string>",
    replaced "std::swap" "<utility>",
    replaced "std::move" "<utility>",
    replaced "std::forward" "<utility>" ]

/-- The tables of headers in the order in which they are searched. -/
def headers : List BuiltinRow :=
  gnuCxx ++ gnuC ++ freeBsd

end BuiltinTable

end IncludeAudit
